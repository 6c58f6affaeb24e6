import KestrelCompiler.Proofs.Grammar.Unambiguity
import KestrelCompiler.Proofs.Tree.Order

/-!
The layout of a program. A tree keeps the lexemes of its source in their order, and what stands
between two of them is blank, up to a comma of a list or the word `else`. The derivations say so of
every piece of the source, and a source that is read is such a piece as a whole.
-/

namespace KestrelCompiler

open Position

namespace Separator

/-- After blanks one of the words of the separator stands at `p`, and `q` is the place after it. -/
def Opens (s : Separator) (p q : Position) : Prop :=
  ∃ blanks, (∀ c ∈ blanks, Text.isBlank c = true) ∧ ∃ word ∈ s.words,
    p.rest = blanks ++ (word.toList ++ q.rest) ∧
    q.location = p.location.walk (blanks ++ word.toList)

theorem opens_blank (p : Position) : Opens .blank p p :=
  ⟨[], nofun, "", List.mem_singleton.mpr rfl, rfl, rfl⟩

theorem opens_lastComma (p : Position) : Opens .lastComma p p :=
  ⟨[], nofun, "", List.mem_cons_self, rfl, rfl⟩

theorem Opens.mono {s s' : Separator} {p q : Position} (h : s.Opens p q)
    (hwords : ∀ word ∈ s.words, word ∈ s'.words) : s'.Opens p q := by
  obtain ⟨blanks, hblanks, word, hword, hrest⟩ := h
  exact ⟨blanks, hblanks, word, hwords word hword, hrest⟩

theorem opens_of_reads {s : Separator} {shape : Shape} {text : String} {p q : Position} {t : Token}
    (h : Reads shape p t q) (hshape : ∀ word after, shape word after → word = text.toList)
    (htext : text ∈ s.words) : s.Opens p q := by
  obtain ⟨word, hword, ⟨blanks, hblanks, hrest, hstart, hstop, hq⟩, -⟩ := h
  obtain rfl := hshape word _ hword
  refine ⟨blanks, hblanks, text, htext, hrest, ?_⟩
  rw [hq, hstop, hstart, Location.walk_append]

end Separator

/-- The leaf is the next lexeme at `p`, and `q` is the place after it. -/
def Leaf.Stands (p : Position) (l : Leaf) (q : Position) : Prop :=
  ∃ gap word, p.rest = gap ++ (word ++ q.rest) ∧ l.before.Allows gap ∧ word ≠ [] ∧
    l.token.span = ⟨p.location.walk gap, (p.location.walk gap).walk word⟩ ∧
    q.location = l.token.span.stop ∧
    (l.isString = false → l.token.text = String.ofList word ∧ l.token.decoded = false)

/-- The leaves are the next lexemes at `p`, and `q` is the place after the last one. -/
inductive Leaf.Lays : Position → List Leaf → Position → Prop
  | nil {p : Position} : Lays p [] p
  | cons {p p₁ q : Position} {l : Leaf} {rest : List Leaf} :
    l.Stands p p₁ → Lays p₁ rest q → Lays p (l :: rest) q

namespace Leaf

variable {p p₀ p₁ q : Position} {before : Separator} {t : Token}

theorem Lays.append {xs ys : List Leaf} (h : Lays p xs p₁) (h' : Lays p₁ ys q) :
    Lays p (xs ++ ys) q := by
  induction h with
  | nil => exact h'
  | cons hleaf _ ih => exact .cons hleaf (ih h')

theorem Lays.single {l : Leaf} (h : l.Stands p q) : Lays p [l] q :=
  .cons h .nil

theorem Lays.snoc {xs : List Leaf} {l : Leaf} (h : Lays p xs p₁) (hl : l.Stands p₁ q) :
    Lays p (xs ++ [l]) q :=
  h.append (.single hl)

theorem stands_of_stands {word : List Char} {isString : Bool} (hopens : before.Opens p₀ p)
    (h : p.Stands word t.span q) (hne : word ≠ [])
    (htext : isString = false → t.text = String.ofList word ∧ t.decoded = false) :
    Leaf.Stands p₀ { token := t, before, isString } q := by
  obtain ⟨blanks, hblanks, opening, hmem, hrest, hlocation⟩ := hopens
  obtain ⟨blanks', hblanks', hrest', hstart, hstop, hq⟩ := h
  refine ⟨blanks ++ (opening.toList ++ blanks'), word, ?_,
    ⟨blanks, blanks', opening, hmem, rfl, ?_⟩, hne, ?_, hq, htext⟩
  · rw [hrest, hrest']
    simp only [List.append_assoc]
  · intro c hc
    rcases List.mem_append.mp hc with hc | hc
    · exact hblanks c hc
    · exact hblanks' c hc
  · have hgap : p₀.location.walk (blanks ++ (opening.toList ++ blanks')) = t.span.start := by
      rw [hstart, hlocation, ← Location.walk_append, List.append_assoc]
    rw [hgap, ← hstop]

theorem stands_of_reads {shape : Shape} (hsolid : shape.Solid) (hopens : before.Opens p₀ p)
    (h : Reads shape p t q) : Leaf.Stands p₀ { token := t, before } q := by
  obtain ⟨word, hshape, hstands, htext⟩ := h
  obtain ⟨c, more, rfl, -⟩ := hsolid word _ hshape
  exact stands_of_stands hopens hstands (List.cons_ne_nil c more) fun _ => htext

theorem stands_part {shape : Shape} (hsolid : shape.Solid) (h : Reads shape p t q) :
    Leaf.Stands p { token := t } q :=
  stands_of_reads hsolid (Separator.opens_blank p) h

end Leaf

namespace Derivation

open Leaf KestrelCompiler.Part

variable {p q : Position} {spans : List Span}

theorem leavesOf_append (parts rest : List Part) :
    leavesOf (parts ++ rest) = leavesOf parts ++ leavesOf rest := by
  induction parts with
  | nil => rfl
  | cons p parts ih => simp only [List.cons_append, leavesOf, ih, List.append_assoc]

theorem Stars.lays {inner type : TypeExpr} (h : Stars inner p type spans q) {before : Separator}
    {p₀ : Position} (hinner : Lays p₀ (inner.part before).leaves p) :
    Lays p₀ (type.part before).leaves q := by
  induction h with
  | none => exact hinner
  | star hstar _ ih =>
      apply ih
      simpa [TypeExpr.part, leaves, leavesOf, Token.part] using
        hinner.snoc (stands_part Shape.solid_star hstar)

mutual

theorem TypeAt.lays {p q : Position} {type : TypeExpr} {spans : List Span} :
    TypeAt p type spans q → ∀ {before : Separator} {p₀ : Position}, before.Opens p₀ p →
      Lays p₀ (type.part before).leaves q
  | .named hname hstars, _, _, hopens =>
    hstars.lays (.single (stands_of_reads Shape.solid_identifier hopens hname))
  | .function hs, _, _, hopens => hs.lays hopens

theorem SignatureAt.lays {p q : Position} {s : Signature} {spans : List Span} :
    SignatureAt p s spans q → ∀ {before : Separator} {p₀ : Position}, before.Opens p₀ p →
      Lays p₀ (s.toType.part before).leaves q
  | @SignatureAt.mk _ _ _ _ _ _ _ _ ret _ _ hleft hargs hright hret, before, p₀, hopens => by
    have hopen := stands_of_reads Shape.solid_leftParen hopens hleft
    obtain ⟨p₁, htypes, hclosing⟩ := hargs.lays (Separator.opens_blank _)
    have hclose := stands_of_reads Shape.solid_rightParen hclosing hright
    have hall := (Lays.cons hopen (htypes.snoc hclose)).append hret.lays
    cases ret with
    | none =>
        simpa [Signature.toType, TypeExpr.part, leaves, leavesOf, leavesOf_append, Token.closing]
          using hall
    | some ret =>
        simpa [Signature.toType, TypeExpr.part, leaves, leavesOf, leavesOf_append, Token.closing]
          using hall

/-- After the last type a comma may stand, where the closing parenthesis accounts for it. -/
theorem TypesAt.lays {p q : Position} {types : List TypeExpr} {spans : List Span} :
    TypesAt p types spans q → ∀ {before : Separator} {p₀ : Position}, before.Opens p₀ p →
      ∃ p₁, Lays p₀ (leavesOf (TypeExpr.parts before types)) p₁ ∧
        Separator.Opens (if types.isEmpty then before else .lastComma) p₁ q
  | .none, _, p₀, hopens => ⟨p₀, .nil, hopens⟩
  | .last htype, _, _, hopens => by
    refine ⟨q, ?_, Separator.opens_lastComma q⟩
    simpa [TypeExpr.parts, leavesOf] using htype.lays hopens
  | @TypesAt.more _ _ _ _ _ _ types _ _ htype hcomma hmore, _, _, hopens => by
    have hcomma := Separator.opens_of_reads (s := .comma) hcomma (fun _ _ h => h) List.mem_cons_self
    obtain ⟨p₁, hrest, hclosing⟩ := hmore.lays hcomma
    refine ⟨p₁, (htype.lays hopens).append hrest, ?_⟩
    cases types with
    | nil => exact hclosing.mono fun _ => List.mem_cons_of_mem _
    | cons _ _ => exact hclosing

theorem ResultAt.lays {p q : Position} {ret : Option TypeExpr} {spans : List Span} :
    ResultAt p ret spans q → Lays p (leavesOf (ret.map (TypeExpr.part .blank)).toList) q
  | .none => .nil
  | .some htype => by
    simpa [leavesOf] using htype.lays (Separator.opens_blank p)

end

theorem PrimaryAt.lays {e : Expr} (h : PrimaryAt p e spans q) : Lays p e.part.leaves q := by
  cases h with
  | number hnumber => exact .single (stands_part Shape.solid_number hnumber)
  | name hname => exact .single (stands_part Shape.solid_name hname)
  | string hstring =>
      obtain ⟨pieces, hstands, -⟩ := hstring
      have hne : StringLiteral.Piece.literal pieces ≠ [] := List.cons_ne_nil _ _
      exact .single (stands_of_stands (Separator.opens_blank p) hstands hne nofun)

section Operators

variable {operators : List (String × Operation)}
  {operand : Position → Expr → List Span → Position → Prop}

theorem OperandsAt.lays (hsolid : ∀ entry ∈ operators, (Shape.fixed entry.1).Solid)
    (hoperand : ∀ p e spans q, operand p e spans q → Lays p e.part.leaves q) {left e : Expr}
    {p₀ : Position} (h : OperandsAt operators operand left p e spans q)
    (hleft : Lays p₀ left.part.leaves p) : Lays p₀ e.part.leaves q := by
  induction h with
  | none => exact hleft
  | more hmem hop hright _ ih =>
      apply ih
      have hall := (hleft.snoc (stands_part (hsolid _ hmem) hop)).append (hoperand _ _ _ _ hright)
      simpa [Expr.part, leaves, leavesOf, Token.part] using hall

theorem JoinedAt.lays (hsolid : ∀ entry ∈ operators, (Shape.fixed entry.1).Solid)
    (hoperand : ∀ p e spans q, operand p e spans q → Lays p e.part.leaves q) {e : Expr}
    (h : JoinedAt operators operand p e spans q) : Lays p e.part.leaves q := by
  cases h with
  | mk hfirst hmore => exact hmore.lays hsolid hoperand (hoperand _ _ _ _ hfirst)

end Operators

theorem ExprAt.lays {e : Expr} (h : ExprAt p e spans q) : Lays p e.part.leaves q := by
  have hsum : ∀ p e spans q, SumAt p e spans q → Lays p e.part.leaves q := fun _ _ _ _ h =>
    JoinedAt.lays Rule.apart_additive.1 (fun _ _ _ _ => PrimaryAt.lays) h
  exact JoinedAt.lays Rule.apart_comparison.1 hsum h

theorem NamesAt.lays {names : List Token} (h : NamesAt p names spans q) :
    ∀ {before : Separator} {p₀ : Position}, before.Opens p₀ p →
      Lays p₀ (leavesOf (Token.parts before names)) q := by
  induction h with
  | last hname =>
      intro _ _ hopens
      exact .single (stands_of_reads Shape.solid_identifier hopens hname)
  | more hname hcomma _ ih =>
      intro _ _ hopens
      have hcomma :=
        Separator.opens_of_reads (s := .comma) hcomma (fun _ _ h => h) List.mem_cons_self
      exact .cons (stands_of_reads Shape.solid_identifier hopens hname) (ih hcomma)

mutual

theorem BlockAt.lays {p q : Position} {b : Block} {spans : List Span} :
    BlockAt p b spans q → ∀ {before : Separator} {p₀ : Position}, before.Opens p₀ p →
      Lays p₀ (b.part before).leaves q
  | .mk hleft hitems hright, _, _, hopens => by
    have hopen := stands_of_reads Shape.solid_leftBrace hopens hleft
    have hall := Lays.cons hopen (hitems.lays.snoc (stands_part Shape.solid_rightBrace hright))
    simpa [Block.part, leaves, leavesOf, leavesOf_append, Token.part] using hall

theorem StatementsAt.lays {p q : Position} {items : List Stmt} {spans : List Span} :
    StatementsAt p items spans q → Lays p (leavesOf (Stmt.parts items)) q
  | .none => .nil
  | .more hitem hrest => hitem.lays.append hrest.lays

theorem StatementAt.lays {p q : Position} {s : Stmt} {spans : List Span} :
    StatementAt p s spans q → Lays p s.part.leaves q
  | .block hbody => hbody.lays (Separator.opens_blank _)
  | .ifThen hif hcondition hyes => by
    have hkeyword := stands_part Shape.solid_if.keyword hif
    have hall := Lays.cons hkeyword (hcondition.lays.append (hyes.lays (Separator.opens_blank _)))
    simpa [Stmt.part, leaves, leavesOf, Token.part] using hall
  | .ifElse hif hcondition hyes helse hno => by
    have hkeyword := stands_part Shape.solid_if.keyword hif
    have hother := Separator.opens_of_reads (s := .alternative) helse (fun _ _ h => h.1)
      List.mem_cons_self
    have hbranches := (hyes.lays (Separator.opens_blank _)).append (hno.lays hother)
    have hall := Lays.cons hkeyword (hcondition.lays.append hbranches)
    simpa [Stmt.part, leaves, leavesOf, Token.part] using hall
  | .ret hmarker hvalue => by
    have hall := Lays.cons (stands_part Shape.solid_colon hmarker) hvalue.lays
    simpa [Stmt.part, leaves, leavesOf, Token.part] using hall
  | .directive hname hbang hargs =>
    .cons (stands_part Shape.solid_directiveName hname)
      (.cons (stands_part Shape.solid_bang hbang) (hargs.lays (Separator.opens_blank _)))

end

theorem DeclarationAt.lays {d : FunctionDecl} (h : DeclarationAt p d spans q) :
    Lays p d.part.leaves q := by
  cases h with
  | mk hname hs hbody =>
      have hinside := (hs.lays (Separator.opens_blank _)).append
        (hbody.lays (Separator.opens_blank _))
      have hall := Lays.cons (stands_part Shape.solid_identifier hname) hinside
      simpa [FunctionDecl.part, Signature.part, leaves, leavesOf, Token.part] using hall

theorem DeclarationsAt.lays {decls : List FunctionDecl} (h : DeclarationsAt p decls spans q) :
    Lays p (leavesOf (decls.map FunctionDecl.part)) q := by
  induction h with
  | none => exact .nil
  | more hdecl _ ih => exact hdecl.lays.append ih

end Derivation

namespace Leaf

open Location Token

variable {source : List Char} {i j : Nat} {p q : Position} {l : Leaf} {ls : List Leaf}

/-- What stands in front of each leaf, from an offset on, and after the last one. -/
def Separated (source : List Char) : Int → List Leaf → Prop
  | offset, [] => ∀ c ∈ Text.sliceFrom source offset, Text.isBlank c = true
  | offset, l :: rest => l.before.Allows (Text.slice source offset l.token.span.start.offset) ∧
      Separated source l.token.span.stop.offset rest

/-- The position after the first `k` characters of the source. -/
def At (source : List Char) (k : Nat) : Position :=
  ⟨point source k, source.drop k⟩

theorem stands_at (h : l.Stands (At source i) q) (hi : i ≤ source.length) :
    ∃ a b : Nat, i ≤ a ∧ a < b ∧ b ≤ source.length ∧ l.token.span = .between source a b ∧
      q = At source b ∧ l.before.Allows (Text.slice source i a) ∧
      (l.isString = false → l.token.text = String.ofList (Text.slice source a b)) := by
  obtain ⟨gap, word, hrest, hgap, hne, hspan, hq, htext⟩ := h
  have hrest : source.drop i = gap ++ (word ++ q.rest) := hrest
  have hafter : source.drop (i + gap.length) = word ++ q.rest := by
    rw [← List.drop_drop, hrest, List.drop_left]
  have hend : source.drop (i + gap.length + word.length) = q.rest := by
    rw [← List.drop_drop, hafter, List.drop_left]
  have hlength := congrArg List.length hrest
  simp only [List.length_drop, List.length_append] at hlength
  have hpos := List.length_pos_iff.mpr hne
  have hspan : l.token.span =
      .between source (i + gap.length) (i + gap.length + word.length) := by
    rw [hspan, At, walk_point hrest, walk_point hafter]
    rfl
  refine ⟨i + gap.length, i + gap.length + word.length, by omega, by omega, by omega, hspan, ?_,
    ?_, fun hstring => ?_⟩
  · have hlocation : q.location = _ := hq.trans (congrArg Span.stop hspan)
    rw [At, hend]
    exact congrArg (Position.mk · q.rest) hlocation
  · rw [Text.slice_natCast (by omega) (by omega), hrest, Nat.add_sub_cancel_left, List.take_left]
    exact hgap
  · rw [Text.slice_natCast (by omega) (by omega), hafter, Nat.add_sub_cancel_left, List.take_left]
    exact (htext hstring).1

theorem Lays.inOrder (h : Lays p ls q) (hp : p = At source i) (hi : i ≤ source.length) :
    ∃ j, j ≤ source.length ∧ q = At source j ∧ InOrder source i (ls.map (·.token)) j := by
  induction h generalizing i with
  | nil => exact ⟨i, hi, hp, Nat.le_refl i⟩
  | cons hleaf _ ih =>
      subst hp
      obtain ⟨a, b, hia, hab, hb, hspan, hq, -⟩ := stands_at hleaf hi
      obtain ⟨j, hj, hend, hrest⟩ := ih hq hb
      exact ⟨j, hj, hend, a, b, hia, Nat.le_of_lt hab, hspan, hrest⟩

theorem Lays.nonempty (h : Lays p ls q) (hp : p = At source i) (hi : i ≤ source.length) :
    ∀ l ∈ ls, l.token.span.start < l.token.span.stop ∧ (l.isString = false → l.token.text =
      String.ofList (Text.slice source l.token.span.start.offset l.token.span.stop.offset)) := by
  induction h generalizing i with
  | nil => exact List.forall_mem_nil _
  | cons hleaf _ ih =>
      subst hp
      obtain ⟨a, b, hia, hab, hb, hspan, hq, -, htext⟩ := stands_at hleaf hi
      refine List.forall_mem_cons.mpr ⟨?_, ih hq hb⟩
      rw [hspan, Span.offset_start_between (by omega), Span.offset_stop_between hb]
      exact ⟨point_lt hab hb, htext⟩

theorem Lays.separated (h : Lays p ls q) (hp : p = At source i) (hi : i ≤ source.length)
    (hend : ∀ c ∈ q.rest, Text.isBlank c = true) : Separated source i ls := by
  induction h generalizing i with
  | nil =>
      subst hp
      rw [Separated, Text.sliceFrom_of_nonneg source (Int.natCast_nonneg i), Int.toNat_natCast]
      exact hend
  | cons hleaf _ ih =>
      subst hp
      obtain ⟨a, b, hia, hab, hb, hspan, hq, hgap, -⟩ := stands_at hleaf hi
      rw [Separated, hspan, Span.offset_start_between (by omega), Span.offset_stop_between hb]
      exact ⟨hgap, ih hq hb hend⟩

end Leaf

/-- Nothing of a source that is read gets lost, and nothing is read twice: the lexemes that the tree
keeps follow one another, each of them is not empty and has the text under its span unless it is a
string literal, only blanks and the separators that the tree implies stand around them, and the
parts of every node lie inside it one after the other. -/
theorem Program.layout_of_parse {source : String} {program : Program}
    (h : Program.parse source = .ok program) :
    (∀ l ∈ program.part.leaves, l.token.span.start < l.token.span.stop ∧
      (l.isString = false → l.token.text = String.ofList
        (Text.slice source.toList l.token.span.start.offset l.token.span.stop.offset))) ∧
    program.part.leaves.Pairwise (fun l m => l.token.span.stop ≤ m.token.span.start) ∧
    Leaf.Separated source.toList 0 program.part.leaves ∧ program.part.Nested := by
  obtain ⟨spans, q, hderives, hblank⟩ := Program.derives_of_parse h
  have hlays := hderives.lays
  have hstart : Position.start source = Leaf.At source.toList 0 := rfl
  obtain ⟨j, hj, -, horder⟩ := hlays.inOrder hstart (Nat.zero_le _)
  exact ⟨hlays.nonempty hstart (Nat.zero_le _), List.pairwise_map.mp (horder.pairwise hj),
    hlays.separated hstart (Nat.zero_le _) hblank, program.spanned_part.nested horder hj⟩

/-- Every separator occurs, a comma after the last type included. -/
def separatedSource : String :=
  "f(int*, (bool) char,) int \x7b args! a, b if a < b + 1 \x7b :\"\\n\" \x7d else \x7b :1 \x7d \x7d"

theorem Program.layout_of_parse_separated : ∃ program,
    Program.parse separatedSource = .ok program ∧ program.part.Nested := by
  have hok : (Program.parse separatedSource).isOk = true := by decide +kernel
  cases hparse : Program.parse separatedSource with
  | ok program => exact ⟨program, rfl, (Program.layout_of_parse hparse).2.2.2⟩
  | error problem =>
      rw [hparse] at hok
      cases hok

end KestrelCompiler
