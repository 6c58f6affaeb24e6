import Mathlib.Data.List.Pairwise
import KestrelCompiler.Proofs.Grammar.Placement
import KestrelCompiler.Proofs.Grammar.Unambiguity
import KestrelCompiler.Proofs.Reread.Derived
import KestrelCompiler.Proofs.Tree.Layout

/-!
The number literals of a program, at every depth and in dead statements too. Each of them is read as
a numeric character and a run of number characters, and no other token shares its place.
-/

namespace KestrelCompiler

open Position KestrelCompiler.Derivation

/-- The tokens of an expression, in the order of the source, with whether they are number
literals. -/
def Expr.marked : Expr → List (Token × Bool)
  | number token => [(token, true)]
  | string token | name token => [(token, false)]
  | binary _ left op right => left.marked ++ (op, false) :: right.marked

/-- Tokens that are no number literals. -/
def Token.unmarked (tokens : List Token) : List (Token × Bool) :=
  tokens.map (·, false)

mutual

def Block.marked : Block → List (Token × Bool)
  | .mk left items right => (left, false) :: (Stmt.markedOf items ++ [(right, false)])

def Stmt.marked : Stmt → List (Token × Bool)
  | .block body => body.marked
  | .ifThen keyword condition yes => (keyword, false) :: (condition.marked ++ yes.marked)
  | .ifElse keyword condition yes no =>
    (keyword, false) :: (condition.marked ++ (yes.marked ++ no.marked))
  | .ret marker value => (marker, false) :: value.marked
  | .directive name bang args => Token.unmarked (name :: bang :: args)

def Stmt.markedOf : List Stmt → List (Token × Bool)
  | [] => []
  | item :: rest => item.marked ++ Stmt.markedOf rest

end

def FunctionDecl.marked (d : FunctionDecl) : List (Token × Bool) :=
  (d.name, false) :: (Token.unmarked d.signature.tokens ++ d.body.marked)

def Program.marked (p : Program) : List (Token × Bool) :=
  p.declarations.flatMap FunctionDecl.marked

/-- The number literals of a program. -/
def Program.numbers (p : Program) : List Token :=
  (p.marked.filter (·.2)).map (·.1)

theorem Program.mem_numbers {p : Program} {t : Token} : t ∈ p.numbers ↔ (t, true) ∈ p.marked := by
  simp [numbers]

section Tokens

@[simp] theorem Token.map_fst_unmarked (tokens : List Token) :
    (unmarked tokens).map Prod.fst = tokens := by
  rw [unmarked, List.map_map]
  exact List.map_id tokens

@[simp] theorem Expr.map_fst_marked (e : Expr) : e.marked.map Prod.fst = e.tokens := by
  induction e with
  | number _ | string _ | name _ => rfl
  | binary operation left op right ihl ihr =>
      rw [tokens_binary, marked, List.map_append, List.map_cons, ihl, ihr]

mutual

@[simp] theorem Block.map_fst_marked : ∀ b : Block, b.marked.map Prod.fst = b.tokens
  | .mk left items right => by
    simp [Block.marked, Block.tokens_mk, Stmt.map_fst_markedOf items]

@[simp] theorem Stmt.map_fst_marked : ∀ s : Stmt, s.marked.map Prod.fst = s.tokens
  | .block body => Block.map_fst_marked body
  | .ifThen keyword condition yes => by
    simp [Stmt.marked, Stmt.tokens_ifThen, Block.map_fst_marked yes]
  | .ifElse keyword condition yes no => by
    simp [Stmt.marked, Stmt.tokens_ifElse, Block.map_fst_marked yes, Block.map_fst_marked no]
  | .ret marker value => by
    simp [Stmt.marked, Stmt.tokens_ret]
  | .directive name bang args => by
    rw [Stmt.marked, Stmt.tokens_directive, Token.map_fst_unmarked]

theorem Stmt.map_fst_markedOf :
    ∀ items : List Stmt, (Stmt.markedOf items).map Prod.fst = items.flatMap Stmt.tokens
  | [] => rfl
  | item :: rest => by
    rw [Stmt.markedOf, List.map_append, Stmt.map_fst_marked item, Stmt.map_fst_markedOf rest,
      List.flatMap_cons]

end

theorem FunctionDecl.map_fst_marked (d : FunctionDecl) : d.marked.map Prod.fst = d.tokens := by
  obtain ⟨name, s, body⟩ := d
  simp [marked, tokens_mk]

theorem Program.map_fst_marked (p : Program) : p.marked.map Prod.fst = p.part.tokens := by
  obtain ⟨decls⟩ := p
  rw [tokens_part, marked, List.map_flatMap]
  simp only [FunctionDecl.map_fst_marked]

end Tokens

namespace Location

theorem lt_iff {l m : Location} : l < m ↔ l.index < m.index ∨ l.index = m.index ∧
    (l.line < m.line ∨ l.line = m.line ∧ (l.column < m.column ∨ l.column = m.column ∧
      l.offset < m.offset)) := by
  change Location.lt l m = true ↔ _
  simp only [Location.lt, Bool.or_eq_true, Bool.and_eq_true, decide_eq_true_eq]

theorem lt_irrefl (l : Location) : ¬ l < l := by
  rw [lt_iff]
  omega

theorem lt_of_lt_of_le {l m n : Location} (h : l < m) (h' : m ≤ n) : l < n := by
  rcases h' with h' | rfl
  · rw [lt_iff] at *
    omega
  · exact h

end Location

section Places

variable {source : String} {program : Program}

/-- The tokens of a program stand one after the other. -/
theorem Program.tokens_ordered (h : Program.parse source = .ok program) :
    program.part.tokens.Pairwise fun t u => t.span.start < u.span.start := by
  obtain ⟨spans, q, hderives, -⟩ := Program.derives_of_parse h
  have hlays := hderives.lays
  have hstart : Position.start source = Leaf.At source.toList 0 := rfl
  obtain ⟨j, hj, -, horder⟩ := hlays.inOrder hstart (Nat.zero_le _)
  have hordered := List.pairwise_map.mp (horder.pairwise hj)
  refine List.pairwise_map.mpr (hordered.imp_of_mem fun {l m} hl _ hle => ?_)
  exact Location.lt_of_lt_of_le (hlays.nonempty hstart (Nat.zero_le _) l hl).1 hle

/-- A token that is no number literal does not have the place of one. -/
theorem Program.span_ne_of_marked (h : Program.parse source = .ok program) {t u : Token}
    (ht : t ∈ program.numbers) (hu : (u, false) ∈ program.marked) : t.span ≠ u.span := by
  have hordered := Program.tokens_ordered h
  rw [← Program.map_fst_marked, List.pairwise_map] at hordered
  have hdistinct : program.marked.Pairwise fun a b => a.1.span ≠ b.1.span := by
    refine hordered.imp fun {a b} hlt hsame => ?_
    rw [hsame] at hlt
    exact Location.lt_irrefl _ hlt
  have : Std.Symm fun a b : Token × Bool => a.1.span ≠ b.1.span := ⟨fun _ _ => Ne.symm⟩
  exact hdistinct.forall (Program.mem_numbers.mp ht) hu (by simp)

end Places

section Reading

theorem Expr.mem_nodes_of_marked {e : Expr} {t : Token} (h : (t, true) ∈ e.marked) :
    Node.expression (.number t) ∈ e.nodes := by
  induction e with
  | number token =>
      obtain rfl : t = token := by simpa [marked] using h
      exact List.mem_singleton_self _
  | string token | name token => simp [marked] at h
  | binary operation left op right ihl ihr =>
      refine List.mem_cons_of_mem _ (List.mem_append.mpr ?_)
      simp only [marked, List.mem_append, List.mem_cons, Prod.mk.injEq] at h
      rcases h with h | ⟨-, h⟩ | h
      · exact .inl (ihl h)
      · cases h
      · exact .inr (ihr h)

theorem Token.not_mem_unmarked {t : Token} {tokens : List Token} :
    (t, true) ∉ unmarked tokens := by
  simp [unmarked]

mutual

theorem Block.mem_nodes_of_marked {t : Token} : ∀ b : Block, (t, true) ∈ b.marked →
    Node.expression (.number t) ∈ b.nodes
  | .mk _ items _, h => by
    simp only [Block.marked, List.mem_cons, List.mem_append, Prod.mk.injEq, Bool.true_eq_false,
      and_false, false_or, List.not_mem_nil, or_false] at h
    exact List.mem_cons_of_mem _ (Stmt.mem_nodesOf_of_marked items h)

theorem Stmt.mem_nodes_of_marked {t : Token} : ∀ s : Stmt, (t, true) ∈ s.marked →
    Node.expression (.number t) ∈ s.nodes
  | .block body, h => Block.mem_nodes_of_marked body h
  | .ifThen _ condition yes, h => by
    simp only [Stmt.marked, List.mem_cons, List.mem_append, Prod.mk.injEq, Bool.true_eq_false,
      and_false, false_or] at h
    exact List.mem_append.mpr (h.imp Expr.mem_nodes_of_marked (Block.mem_nodes_of_marked yes))
  | .ifElse _ condition yes no, h => by
    simp only [Stmt.marked, List.mem_cons, List.mem_append, Prod.mk.injEq, Bool.true_eq_false,
      and_false, false_or] at h
    rw [Stmt.nodes, List.mem_append, List.mem_append]
    exact h.imp Expr.mem_nodes_of_marked
      (Or.imp (Block.mem_nodes_of_marked yes) (Block.mem_nodes_of_marked no))
  | .ret _ value, h => by
    simp only [Stmt.marked, List.mem_cons, Prod.mk.injEq, Bool.true_eq_false, and_false,
      false_or] at h
    exact Expr.mem_nodes_of_marked h
  | .directive _ _ _, h => absurd h Token.not_mem_unmarked

theorem Stmt.mem_nodesOf_of_marked {t : Token} : ∀ items : List Stmt,
    (t, true) ∈ Stmt.markedOf items → Node.expression (.number t) ∈ Stmt.nodesOf items
  | [], h => absurd h List.not_mem_nil
  | item :: rest, h => by
    rw [Stmt.markedOf, List.mem_append] at h
    exact List.mem_append.mpr
      (h.imp (Stmt.mem_nodes_of_marked item) (Stmt.mem_nodesOf_of_marked rest))

end

theorem Program.mem_nodes_of_numbers {p : Program} {t : Token} (h : t ∈ p.numbers) :
    Node.expression (.number t) ∈ p.nodes := by
  obtain ⟨d, hd, hmarked⟩ := List.mem_flatMap.mp (Program.mem_numbers.mp h)
  refine List.mem_flatMap.mpr ⟨d, hd, List.mem_append_right _ ?_⟩
  simp only [FunctionDecl.marked, List.mem_cons, List.mem_append, Prod.mk.injEq,
    Bool.true_eq_false, and_false, false_or] at hmarked
  exact Block.mem_nodes_of_marked _ (hmarked.resolve_left Token.not_mem_unmarked)

/-- Operands are joined to something that is no literal. -/
theorem Derivation.OperandsAt.of_number {operators : List (String × Operation)}
    {operand : Position → Expr → List Span → Position → Prop} {left e : Expr} {p q : Position}
    {spans : List Span} {t : Token} (h : OperandsAt operators operand left p e spans q)
    (he : e = .number t) : left = .number t ∧ p = q := by
  induction h with
  | none => exact ⟨he, rfl⟩
  | more _ _ _ _ ih => cases (ih he).1

theorem Derivation.ExprAt.reads_number {p q : Position} {t : Token} {spans : List Span}
    (h : ExprAt p (.number t) spans q) : Reads .number p t q := by
  obtain ⟨hsum, hmore⟩ := h
  obtain ⟨rfl, rfl⟩ := hmore.of_number rfl
  obtain ⟨hprimary, hmore⟩ := hsum
  obtain ⟨rfl, rfl⟩ := hmore.of_number rfl
  cases hprimary with
  | number hreads => exact hreads

/-- The word stands in the text between these two points. -/
def Span.Frames (s : Span) (text word : List Char) : Prop :=
  ∃ before after, text = before ++ (word ++ after) ∧
    s = ⟨Location.start.walk before, (Location.start.walk before).walk word⟩

theorem Span.Frames.unique {s : Span} {text word word' : List Char} (h : s.Frames text word)
    (h' : s.Frames text word') : word = word' := by
  obtain ⟨before, after, htext, rfl⟩ := h
  obtain ⟨before', after', htext', hs⟩ := h'
  obtain ⟨hstart, hstop⟩ := Span.mk.inj hs
  have hlength := congrArg Location.offset hstart
  have hlength' := congrArg Location.offset hstop
  simp only [Location.offset_walk] at hlength hlength'
  obtain ⟨rfl, hwords⟩ := List.append_inj (htext.symm.trans htext') (by omega)
  exact (List.append_inj hwords (by omega)).1

/-- A number literal is read from the text at its place. -/
theorem Program.reads_of_numbers {source : String} {program : Program}
    (h : Program.parse source = .ok program) {t : Token} (ht : t ∈ program.numbers) :
    ∃ word after, Shape.number word after ∧ t.text = String.ofList word ∧
      t.span.Frames source.toList word := by
  obtain ⟨spans, q, hderives, -⟩ := Program.derives_of_parse h
  obtain ⟨m, spans', q', ⟨before, hrest, hlocation⟩, hnode⟩ :=
    hderives.holds _ (Program.mem_nodes_of_numbers ht)
  obtain ⟨word, hshape, hstands, htext, -⟩ := ExprAt.reads_number hnode
  obtain ⟨blanks, -, hword, hstart, hstop, -⟩ := hstands
  refine ⟨word, _, hshape, htext, before ++ blanks, q'.rest, ?_, ?_⟩
  · rw [List.append_assoc, ← hword]
    exact hrest
  · have hm : t.span.start = Location.start.walk (before ++ blanks) := by
      rw [hstart, hlocation, Location.walk_append]
      rfl
    rw [← hm, ← hstop]

end Reading

end KestrelCompiler
