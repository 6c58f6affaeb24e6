import KestrelCompiler.Proofs.Outline.Lines
import KestrelCompiler.Proofs.Outline.Quoted

/-!
Outlines of trees. All their lines are rows: labels and names of parts are, and the texts of tokens
are quoted.
-/

namespace KestrelCompiler

open Outline

namespace Outline

instance (line : String) : Decidable (IsRow line) :=
  decidable_of_iff ('\n' ∉ line.toList ∧ line.toList.head? ≠ some ' ')
    ⟨fun h => ⟨h.1, h.2⟩, fun h => ⟨h.lineFeed, h.blank⟩⟩

theorem IsRow.append {a b : String} (h : IsRow a) (h' : IsRow b) : IsRow (a ++ b) := by
  refine ⟨?_, ?_⟩
  · rw [String.toList_append, List.mem_append, not_or]
    exact ⟨h.lineFeed, h'.lineFeed⟩
  · have hblank := h.blank
    rw [String.toList_append, List.head?_append]
    cases hhead : a.toList.head? with
    | none => exact h'.blank
    | some c => rwa [hhead] at hblank

theorem isRow_quote (text : String) : IsRow (Text.quote text) := by
  refine ⟨Text.lineFeed_not_mem_quote text, ?_⟩
  rw [Text.head?_quote]
  rcases Text.quotationMark_cases text.toList with h | h <;> rw [h] <;> decide

/-- The labels of the parts are rows, which is decided. -/
theorem plain_entry {line : String} {parts : List Outline} (hparts : PlainAll parts)
    (h : IsRow line := by decide) : (entry line parts).Plain :=
  ⟨h, hparts⟩

theorem plainAll_cons {part : Outline} {parts : List Outline} (hpart : part.Plain)
    (hparts : PlainAll parts) : PlainAll (part :: parts) :=
  ⟨hpart, hparts⟩

theorem plainAll_singleton {part : Outline} (hpart : part.Plain) : PlainAll [part] :=
  ⟨hpart, trivial⟩

theorem plain_leaf {line : String} (h : IsRow line) : (leaf line).Plain :=
  ⟨h, trivial⟩

variable {name : String}

theorem plain_quoted (text : String) (h : IsRow name := by decide) : (quoted name text).Plain :=
  plain_leaf ((h.append (by decide)).append (isRow_quote text))

theorem plain_part {o : Outline} (ho : o.Plain) (h : IsRow name := by decide) :
    (part name o).Plain :=
  ⟨h.append (by decide), plainAll_singleton ho⟩

theorem plain_list {items : List Outline} (hitems : PlainAll items)
    (h : IsRow name := by decide) : (list name items).Plain := by
  cases items with
  | nil => exact plain_leaf (h.append (by decide))
  | cons item rest => exact ⟨h.append (by decide), hitems⟩

theorem plainAll_map {α : Type} {f : α → Outline} (h : ∀ a, (f a).Plain) (l : List α) :
    PlainAll (l.map f) := by
  induction l with
  | nil => trivial
  | cons a rest ih => exact ⟨h a, ih⟩

theorem plain_signature {args : List Outline} {ret : Option Outline} (hargs : PlainAll args)
    (hret : ∀ o ∈ ret, o.Plain) : (signature args ret).Plain := by
  refine plain_entry (plainAll_cons (plain_list hargs) ?_)
  cases ret with
  | none => trivial
  | some ret => exact plainAll_singleton (plain_part (hret ret rfl))

end Outline

mutual

theorem TypeExpr.plain_outline : ∀ t : TypeExpr, t.outline.Plain
  | .named name => by
    rw [outline]
    exact plain_entry (plainAll_singleton (plain_quoted name.text))
  | .pointer inner _ => by
    rw [outline]
    exact plain_entry (plainAll_singleton (plain_part inner.plain_outline))
  | .function args none _ _ => by
    rw [outline]
    have hsignature := @plain_signature _ none (TypeExpr.plain_outlines args) nofun
    exact plain_entry (plainAll_singleton (plain_part hsignature))
  | .function args (some ret) _ _ => by
    rw [outline]
    have hret := ret.plain_outline
    have hsignature := @plain_signature _ (some ret.outline) (TypeExpr.plain_outlines args)
      (by rintro o ⟨⟩; exact hret)
    exact plain_entry (plainAll_singleton (plain_part hsignature))

theorem TypeExpr.plain_outlines : ∀ ts : List TypeExpr, PlainAll (TypeExpr.outlines ts)
  | [] => trivial
  | t :: rest => plainAll_cons t.plain_outline (TypeExpr.plain_outlines rest)

end

theorem Signature.plain_outline (s : Signature) : s.outline.Plain := by
  refine plain_signature (TypeExpr.plain_outlines s.args) fun o ho => ?_
  obtain ⟨ret, -, rfl⟩ := Option.map_eq_some_iff.mp ho
  exact ret.plain_outline

theorem Expr.plain_outline (e : Expr) : e.outline.Plain := by
  induction e with
  | number token | string token | name token =>
      exact plain_entry (plainAll_singleton (plain_quoted token.text))
  | binary operation left op right ihl ihr =>
      have hlabel : IsRow operation.label := by
        cases operation <;> decide
      have hop : (quoted "op" op.text).Plain := plain_quoted op.text
      exact plain_entry (plainAll_cons (plain_part ihl) (plainAll_cons hop
        (plainAll_singleton (plain_part ihr)))) hlabel

mutual

theorem Block.plain_outline : ∀ block : Block, block.outline.Plain
  | .mk _ items _ => by
    rw [Block.outline]
    exact plain_entry (plainAll_singleton (plain_list (Stmt.plain_outlines items)))

theorem Stmt.plain_outline : ∀ stmt : Stmt, stmt.outline.Plain
  | .block body => by
    rw [Stmt.outline]
    exact body.plain_outline
  | .ifThen _ condition yes => by
    rw [Stmt.outline]
    exact plain_entry (plainAll_cons (plain_part condition.plain_outline)
      (plainAll_singleton (plain_part yes.plain_outline)))
  | .ifElse _ condition yes no => by
    rw [Stmt.outline]
    exact plain_entry (plainAll_cons (plain_part condition.plain_outline)
      (plainAll_cons (plain_part yes.plain_outline)
        (plainAll_singleton (plain_part no.plain_outline))))
  | .ret _ value => by
    rw [Stmt.outline]
    exact plain_entry (plainAll_singleton (plain_part value.plain_outline))
  | .directive name _ args => by
    rw [Stmt.outline]
    have hargs := plainAll_map (fun arg : Token => plain_leaf (isRow_quote arg.text)) args
    exact plain_entry (plainAll_cons (plain_quoted name.text)
      (plainAll_singleton (plain_list hargs)))

theorem Stmt.plain_outlines : ∀ items : List Stmt, PlainAll (Stmt.outlines items)
  | [] => trivial
  | item :: rest => plainAll_cons item.plain_outline (Stmt.plain_outlines rest)

end

theorem FunctionDecl.plain_outline (d : FunctionDecl) : d.outline.Plain :=
  plain_entry (plainAll_cons (plain_quoted d.name.text)
    (plainAll_cons (plain_part d.signature.plain_outline)
      (plainAll_singleton (plain_part d.body.plain_outline))))

theorem Program.plain_outline (p : Program) : p.outline.Plain :=
  plain_entry (plainAll_singleton (plain_list (plainAll_map FunctionDecl.plain_outline _)))

end KestrelCompiler
