import KestrelCompiler.Proofs.Grammar.Completeness

/-!
Unambiguity. A source has at most one derivation: its tree is the one that the rules give, and the
lexemes behind the tree, those that it does not keep included, are determined by where they stand
and by what follows.
-/

namespace KestrelCompiler

open KestrelCompiler.Derivation Position Rule

/-- At most one text of this shape begins a given rest of the source. -/
def Shape.Exact (shape : Shape) : Prop :=
  ∀ word after word' after', shape word after → shape word' after' →
    word ++ after = word' ++ after' → word = word'

namespace Shape

theorem exact_fixed (text : String) : Exact (fixed text) :=
  fun _ _ _ _ h h' _ => h.trans h'.symm

theorem exact_keyword (text : String) : Exact (keyword text) :=
  fun _ _ _ _ h h' _ => h.1.trans h'.1.symm

theorem exact_identifier : Exact identifier := by
  intro word after word' after' h h' hsame
  rw [← (takeWhile_append_eq h.2.1 h.2.2).1, hsame, (takeWhile_append_eq h'.2.1 h'.2.2).1]

theorem exact_name : Exact name :=
  fun word after word' after' h h' => exact_identifier word after word' after' h.1 h'.1

theorem exact_directiveName : Exact directiveName :=
  fun word after word' after' h h' => exact_identifier word after word' after' h.1 h'.1

theorem exact_number : Exact number := by
  rintro _ after _ after' ⟨⟨first, more, rfl, -, hmore⟩, hafter⟩ ⟨⟨_, more', rfl, -, hmore'⟩, hafter'⟩
    hsame
  obtain ⟨rfl, htail⟩ := List.cons.inj hsame
  have hruns := (takeWhile_append_eq hmore hafter).1.symm.trans
    ((congrArg (List.takeWhile isNumberChar) htail).trans (takeWhile_append_eq hmore' hafter').1)
  rw [hruns]

end Shape

variable {p p₁ q q' : Position} {spans spans' : List Span} {t t' : Token}

/-- What stands at a place is one lexeme with one end. -/
theorem Position.Reads.unique {shape : Shape} (h : Reads shape p t q) (h' : Reads shape p t' q')
    (hexact : shape.Exact) (hsolid : shape.Solid) : t = t' ∧ q = q' := by
  obtain ⟨word, hshape, hrest, hq, rfl⟩ := (reads_iff hsolid).mp h
  obtain ⟨word', hshape', hrest', hq', rfl⟩ := (reads_iff hsolid).mp h'
  have hsame := hrest.symm.trans hrest'
  obtain rfl := hexact _ _ _ _ hshape hshape' hsame
  have hafter := List.append_cancel_left hsame
  cases q
  cases q'
  simp_all

theorem Position.ReadsString.unique (h : ReadsString p t q) (h' : ReadsString p t' q') :
    t = t' ∧ q = q' := by
  obtain ⟨pieces, hstands, ht⟩ := h
  obtain ⟨pieces', hstands', ht'⟩ := h'
  obtain ⟨hrest, hspan, hq⟩ := (stands_iff rfl (by decide)).mp hstands
  obtain ⟨hrest', hspan', hq'⟩ := (stands_iff rfl (by decide)).mp hstands'
  obtain ⟨rfl, hafter⟩ := StringLiteral.Piece.literal_append_inj (hrest.symm.trans hrest')
  rw [ht, ht', hspan, hspan']
  rw [hspan] at hq
  rw [hspan'] at hq'
  cases q
  cases q'
  simp_all

namespace Derivation

theorem Stars.unique {inner type type' : TypeExpr} (h : Stars inner p type spans q)
    (h' : Stars inner p type' spans' q') (hq : q.next? ≠ some '*') (hq' : q'.next? ≠ some '*') :
    type = type' ∧ spans = spans' ∧ q = q' := by
  induction h generalizing spans' with
  | none =>
      cases h' with
      | none => exact ⟨rfl, rfl, rfl⟩
      | star hstar _ => exact absurd (hstar.next?_eq rfl (by decide)) hq
  | star hstar _ ih =>
      cases h' with
      | none => exact absurd (hstar.next?_eq rfl (by decide)) hq'
      | star hstar' hmore' =>
          obtain ⟨rfl, rfl⟩ := hstar.unique hstar' (Shape.exact_fixed _) Shape.solid_star
          obtain ⟨rfl, rfl, rfl⟩ := ih hmore' hq
          exact ⟨rfl, rfl, rfl⟩

/-- A type named first is no function type. -/
theorem not_signatureAt_of_identifier {s : Signature} (h : Reads .identifier p t p₁) :
    ¬ SignatureAt p s spans q := by
  intro hs
  obtain ⟨c, hc, hident⟩ := h.next?_identifier
  rw [hs.next?] at hc
  cases hc
  exact absurd hident (by decide)

theorem not_typeAt_of_next? {type : TypeExpr} {ch : Char} (hnext : p.next? = some ch)
    (hch : ch = ')' ∨ ch = ',' ∨ ch = '{') : ¬ TypeAt p type spans q := by
  intro htype
  obtain ⟨c, hc, hfirst⟩ := htype.next?
  rw [hnext] at hc
  cases hc
  rcases hch with rfl | rfl | rfl <;> revert hfirst <;> decide

theorem not_typeAt_of_followsType {type : TypeExpr} (h : FollowsType p) :
    ¬ TypeAt p type spans q := by
  obtain ⟨c, hc, hfollows⟩ := h
  refine not_typeAt_of_next? hc ?_
  rcases hfollows with rfl | rfl | rfl <;> simp

mutual

theorem TypeAt.unique {p q q' : Position} {type type' : TypeExpr} {spans spans' : List Span} :
    TypeAt p type spans q → TypeAt p type' spans' q' → FollowsType q → FollowsType q' →
      type = type' ∧ spans = spans' ∧ q = q'
  | .named hname hstars, .named hname' hstars', hq, hq' => by
    obtain ⟨rfl, rfl⟩ := hname.unique hname' Shape.exact_identifier Shape.solid_identifier
    obtain ⟨rfl, rfl, rfl⟩ := hstars.unique hstars' (hq.next?_ne (.inr (.inl rfl)))
      (hq'.next?_ne (.inr (.inl rfl)))
    exact ⟨rfl, rfl, rfl⟩
  | .function hs, .function hs', hq, hq' => by
    obtain ⟨rfl, rfl, rfl⟩ := hs.unique hs' hq hq'
    exact ⟨rfl, rfl, rfl⟩
  | .named hname _, .function hs, _, _ => absurd hs (not_signatureAt_of_identifier hname)
  | .function hs, .named hname _, _, _ => absurd hs (not_signatureAt_of_identifier hname)
termination_by structural h => h

theorem SignatureAt.unique {p q q' : Position} {s s' : Signature} {spans spans' : List Span} :
    SignatureAt p s spans q → SignatureAt p s' spans' q' → FollowsType q → FollowsType q' →
      s = s' ∧ spans = spans' ∧ q = q'
  | .mk hleft hargs hright hret, .mk hleft' hargs' hright' hret', hq, hq' => by
    obtain ⟨hleft, rfl⟩ := hleft.unique hleft' (Shape.exact_fixed _) Shape.solid_leftParen
    obtain ⟨hargs, rfl, rfl⟩ := hargs.unique hargs' (hright.next?_eq rfl (by decide))
      (hright'.next?_eq rfl (by decide))
    obtain ⟨hright, rfl⟩ := hright.unique hright' (Shape.exact_fixed _) Shape.solid_rightParen
    obtain ⟨hret, rfl, rfl⟩ := hret.unique hret' hq hq'
    refine ⟨?_, by rw [hleft, hright], rfl⟩
    cases s
    cases s'
    simp_all
termination_by structural h => h

theorem TypesAt.unique {p q q' : Position} {types types' : List TypeExpr}
    {spans spans' : List Span} :
    TypesAt p types spans q → TypesAt p types' spans' q' → q.next? = some ')' →
      q'.next? = some ')' → types = types' ∧ spans = spans' ∧ q = q'
  | .none, .none, _, _ => ⟨rfl, rfl, rfl⟩
  | .last htype, .last htype', hq, hq' => by
    obtain ⟨rfl, rfl, rfl⟩ := htype.unique htype' ⟨')', hq, .inr (.inl rfl)⟩
      ⟨')', hq', .inr (.inl rfl)⟩
    exact ⟨rfl, rfl, rfl⟩
  | .more htype hcomma hmore, .more htype' hcomma' hmore', hq, hq' => by
    obtain ⟨rfl, rfl, rfl⟩ := htype.unique htype'
      ⟨',', hcomma.next?_eq rfl (by decide), .inl rfl⟩
      ⟨',', hcomma'.next?_eq rfl (by decide), .inl rfl⟩
    obtain ⟨rfl, rfl⟩ := hcomma.unique hcomma' (Shape.exact_fixed _) Shape.solid_comma
    obtain ⟨rfl, rfl, rfl⟩ := hmore.unique hmore' hq hq'
    exact ⟨rfl, rfl, rfl⟩
  | .last htype, .more htype' hcomma' _, hq, _ => by
    have hnext : _ = some ',' := hcomma'.next?_eq rfl (by decide)
    obtain ⟨rfl, rfl, rfl⟩ := htype.unique htype' ⟨')', hq, .inr (.inl rfl)⟩ ⟨',', hnext, .inl rfl⟩
    exact absurd (hq.symm.trans hnext) (by decide)
  | .more htype hcomma _, .last htype', _, hq' => by
    have hnext : _ = some ',' := hcomma.next?_eq rfl (by decide)
    obtain ⟨rfl, rfl, rfl⟩ := htype.unique htype' ⟨',', hnext, .inl rfl⟩ ⟨')', hq', .inr (.inl rfl)⟩
    exact absurd (hnext.symm.trans hq') (by decide)
  | .none, .last htype, hq, _ => absurd htype (not_typeAt_of_next? hq (.inl rfl))
  | .none, .more htype _ _, hq, _ => absurd htype (not_typeAt_of_next? hq (.inl rfl))
  | .last htype, .none, _, hq => absurd htype (not_typeAt_of_next? hq (.inl rfl))
  | .more htype _ _, .none, _, hq => absurd htype (not_typeAt_of_next? hq (.inl rfl))
termination_by structural h => h

theorem ResultAt.unique {p q q' : Position} {ret ret' : Option TypeExpr}
    {spans spans' : List Span} :
    ResultAt p ret spans q → ResultAt p ret' spans' q' → FollowsType q → FollowsType q' →
      ret = ret' ∧ spans = spans' ∧ q = q'
  | .none, .none, _, _ => ⟨rfl, rfl, rfl⟩
  | .some htype, .some htype', hq, hq' => by
    obtain ⟨rfl, rfl, rfl⟩ := htype.unique htype' hq hq'
    exact ⟨rfl, rfl, rfl⟩
  | .none, .some htype, hq, _ => absurd htype (not_typeAt_of_followsType hq)
  | .some htype, .none, _, hq => absurd htype (not_typeAt_of_followsType hq)
termination_by structural h => h

end

theorem PrimaryAt.unique {e e' : Expr} (h : PrimaryAt p e spans q) (h' : PrimaryAt p e' spans' q') :
    e = e' ∧ spans = spans' ∧ q = q' := by
  cases h with
  | number hnumber =>
      cases h' with
      | number hnumber' =>
          obtain ⟨rfl, rfl⟩ := hnumber.unique hnumber' Shape.exact_number Shape.solid_number
          exact ⟨rfl, rfl, rfl⟩
      | string hstring => exact absurd hnumber (hstring.not_number _ _)
      | name hname => exact absurd hnumber (hname.not_number _ _)
  | string hstring =>
      cases h' with
      | number hnumber => exact absurd hnumber (hstring.not_number _ _)
      | string hstring' =>
          obtain ⟨rfl, rfl⟩ := hstring.unique hstring'
          exact ⟨rfl, rfl, rfl⟩
      | name hname => exact absurd hstring.next? hname.next?_ne_quote
  | name hname =>
      cases h' with
      | number hnumber => exact absurd hnumber (hname.not_number _ _)
      | string hstring => exact absurd hstring.next? hname.next?_ne_quote
      | name hname' =>
          obtain ⟨rfl, rfl⟩ := hname.unique hname' Shape.exact_name Shape.solid_name
          exact ⟨rfl, rfl, rfl⟩

section Operators

variable {operators : List (String × Operation)}
  {operand : Position → Expr → List Span → Position → Prop} {follows : Position → Prop}

theorem OperandsAt.follows_start (hop : ∀ entry ∈ operators, ∀ p t q,
    Reads (.fixed entry.1) p t q → follows p) {left e : Expr}
    (h : OperandsAt operators operand left p e spans q) (hq : follows q) : follows p := by
  cases h with
  | none => exact hq
  | more hmem hreads _ _ => exact hop _ hmem _ _ _ hreads

theorem OperandsAt.unique (hapart : Apart operators)
    (hoperand : ∀ p q q' e e' spans spans', operand p e spans q → operand p e' spans' q' →
      follows q → follows q' → e = e' ∧ spans = spans' ∧ q = q')
    (hop : ∀ entry ∈ operators, ∀ p t q, Reads (.fixed entry.1) p t q → follows p)
    {left e e' : Expr} (h : OperandsAt operators operand left p e spans q)
    (h' : OperandsAt operators operand left p e' spans' q') (hq : follows q) (hq' : follows q')
    (hnone : NoneOf operators q) (hnone' : NoneOf operators q') :
    e = e' ∧ spans = spans' ∧ q = q' := by
  induction h generalizing spans' with
  | none =>
      cases h' with
      | none => exact ⟨rfl, rfl, rfl⟩
      | more hmem hreads _ _ =>
          exact absurd (Reads.head?_eq hreads (hapart.1 _ hmem)) (hnone _ hmem)
  | more hmem hreads hright hmore ih =>
      cases h' with
      | none => exact absurd (Reads.head?_eq hreads (hapart.1 _ hmem)) (hnone' _ hmem)
      | more hmem' hreads' hright' hmore' =>
          obtain ⟨rfl, rfl⟩ := Prod.mk.inj (hapart.eq_of_reads hmem hmem' hreads hreads')
          obtain ⟨rfl, rfl⟩ := hreads.unique hreads' (Shape.exact_fixed _) (hapart.1 _ hmem)
          obtain ⟨rfl, rfl, rfl⟩ := hoperand _ _ _ _ _ _ _ hright hright' (hmore.follows_start hop hq)
            (hmore'.follows_start hop hq')
          obtain ⟨rfl, rfl, rfl⟩ := ih hmore' hq hnone
          exact ⟨rfl, rfl, rfl⟩

theorem JoinedAt.unique (hapart : Apart operators)
    (hoperand : ∀ p q q' e e' spans spans', operand p e spans q → operand p e' spans' q' →
      follows q → follows q' → e = e' ∧ spans = spans' ∧ q = q')
    (hop : ∀ entry ∈ operators, ∀ p t q, Reads (.fixed entry.1) p t q → follows p)
    {e e' : Expr} (h : JoinedAt operators operand p e spans q)
    (h' : JoinedAt operators operand p e' spans' q') (hq : follows q) (hq' : follows q')
    (hnone : NoneOf operators q) (hnone' : NoneOf operators q') :
    e = e' ∧ spans = spans' ∧ q = q' := by
  cases h with
  | mk hfirst hmore =>
      cases h' with
      | mk hfirst' hmore' =>
          obtain ⟨rfl, rfl, rfl⟩ := hoperand _ _ _ _ _ _ _ hfirst hfirst' (hmore.follows_start hop hq)
            (hmore'.follows_start hop hq')
          obtain ⟨rfl, rfl, rfl⟩ := hmore.unique hapart hoperand hop hmore' hq hq' hnone hnone'
          exact ⟨rfl, rfl, rfl⟩

end Operators

theorem SumAt.unique {e e' : Expr} (h : SumAt p e spans q) (h' : SumAt p e' spans' q')
    (hq : NoneOf PrecedenceLevel.additive.operators q)
    (hq' : NoneOf PrecedenceLevel.additive.operators q') : e = e' ∧ spans = spans' ∧ q = q' := by
  have hprimary : ∀ p q q' e e' spans spans', PrimaryAt p e spans q → PrimaryAt p e' spans' q' →
      True → True → e = e' ∧ spans = spans' ∧ q = q' := fun _ _ _ _ _ _ _ h h' _ _ => h.unique h'
  exact JoinedAt.unique apart_additive hprimary (fun _ _ _ _ _ _ => trivial) h h' trivial trivial
    hq hq'

theorem ExprAt.unique {e e' : Expr} (h : ExprAt p e spans q) (h' : ExprAt p e' spans' q')
    (hq : FollowsExpr q) (hq' : FollowsExpr q') : e = e' ∧ spans = spans' ∧ q = q' :=
  JoinedAt.unique apart_comparison (fun _ _ _ _ _ _ _ => SumAt.unique) noneOf_additive_of_less h h'
    hq.2 hq'.2 hq.1 hq'.1

theorem NamesAt.unique {names : List Token} (h : NamesAt p names spans q)
    (h' : NamesAt p names spans' q') : spans = spans' ∧ q = q' := by
  induction h generalizing spans' with
  | last hname =>
      cases h' with
      | last hname' =>
          obtain ⟨-, rfl⟩ := hname.unique hname' Shape.exact_identifier Shape.solid_identifier
          exact ⟨rfl, rfl⟩
      | more _ _ hmore' => cases hmore'
  | more hname hcomma hmore ih =>
      cases h' with
      | last _ => cases hmore
      | more hname' hcomma' hmore' =>
          obtain ⟨-, rfl⟩ := hname.unique hname' Shape.exact_identifier Shape.solid_identifier
          obtain ⟨rfl, rfl⟩ := hcomma.unique hcomma' (Shape.exact_fixed _) Shape.solid_comma
          obtain ⟨rfl, rfl⟩ := ih hmore'
          exact ⟨rfl, rfl⟩

mutual

theorem BlockAt.unique {p q q' : Position} {b : Block} {spans spans' : List Span} :
    BlockAt p b spans q → BlockAt p b spans' q' → spans = spans' ∧ q = q'
  | .mk hleft hitems hright, .mk hleft' hitems' hright' => by
    obtain ⟨-, rfl⟩ := hleft.unique hleft' (Shape.exact_fixed _) Shape.solid_leftBrace
    obtain ⟨rfl, rfl⟩ := hitems.unique hitems' (followsStatement_of_brace hright)
      (followsStatement_of_brace hright')
    obtain ⟨-, rfl⟩ := hright.unique hright' (Shape.exact_fixed _) Shape.solid_rightBrace
    exact ⟨rfl, rfl⟩

theorem StatementsAt.unique {p q q' : Position} {items : List Stmt} {spans spans' : List Span} :
    StatementsAt p items spans q → StatementsAt p items spans' q' →
      FollowsStatement q → FollowsStatement q' → spans = spans' ∧ q = q'
  | .none, .none, _, _ => ⟨rfl, rfl⟩
  | .more hitem hmore, .more hitem' hmore', hq, hq' => by
    obtain ⟨rfl, rfl⟩ := hitem.unique hitem' (followsStatement_of_statements hmore hq)
      (followsStatement_of_statements hmore' hq')
    obtain ⟨rfl, rfl⟩ := hmore.unique hmore' hq hq'
    exact ⟨rfl, rfl⟩

theorem StatementAt.unique {p q q' : Position} {s : Stmt} {spans spans' : List Span} :
    StatementAt p s spans q → StatementAt p s spans' q' →
      FollowsStatement q → FollowsStatement q' → spans = spans' ∧ q = q'
  | .block hbody, .block hbody', _, _ => hbody.unique hbody'
  | .ifThen hif hcondition hyes, .ifThen hif' hcondition' hyes', _, _ => by
    obtain ⟨-, rfl⟩ := hif.unique hif' (Shape.exact_keyword _) Shape.solid_if.keyword
    obtain ⟨-, rfl, rfl⟩ := hcondition.unique hcondition' (followsExpr_of_block hyes)
      (followsExpr_of_block hyes')
    obtain ⟨rfl, rfl⟩ := hyes.unique hyes'
    exact ⟨rfl, rfl⟩
  | .ifElse hif hcondition hyes helse hno, .ifElse hif' hcondition' hyes' helse' hno', _, _ => by
    obtain ⟨-, rfl⟩ := hif.unique hif' (Shape.exact_keyword _) Shape.solid_if.keyword
    obtain ⟨-, rfl, rfl⟩ := hcondition.unique hcondition' (followsExpr_of_block hyes)
      (followsExpr_of_block hyes')
    obtain ⟨rfl, rfl⟩ := hyes.unique hyes'
    obtain ⟨rfl, rfl⟩ := helse.unique helse' (Shape.exact_keyword _) Shape.solid_else.keyword
    obtain ⟨rfl, rfl⟩ := hno.unique hno'
    exact ⟨rfl, rfl⟩
  | .ret hmarker hvalue, .ret hmarker' hvalue', hq, hq' => by
    obtain ⟨-, rfl⟩ := hmarker.unique hmarker' (Shape.exact_fixed _) Shape.solid_colon
    obtain ⟨-, rfl, rfl⟩ := hvalue.unique hvalue' hq.expr hq'.expr
    exact ⟨rfl, rfl⟩
  | .directive hname hbang hargs, .directive hname' hbang' hargs', _, _ => by
    obtain ⟨-, rfl⟩ :=
      hname.unique hname' Shape.exact_directiveName Shape.solid_directiveName
    obtain ⟨-, rfl⟩ := hbang.unique hbang' (Shape.exact_fixed _) Shape.solid_bang
    obtain ⟨rfl, rfl⟩ := hargs.unique hargs'
    exact ⟨rfl, rfl⟩

end

theorem DeclarationAt.unique {d : FunctionDecl} (h : DeclarationAt p d spans q)
    (h' : DeclarationAt p d spans' q') : spans = spans' ∧ q = q' := by
  cases h with
  | mk hname hs hbody =>
      cases h' with
      | mk hname' hs' hbody' =>
          obtain ⟨-, rfl⟩ := hname.unique hname' Shape.exact_identifier Shape.solid_identifier
          obtain ⟨-, rfl, rfl⟩ := hs.unique hs' (followsType_of_block hbody)
            (followsType_of_block hbody')
          obtain ⟨rfl, rfl⟩ := hbody.unique hbody'
          exact ⟨rfl, rfl⟩

theorem DeclarationsAt.unique {decls : List FunctionDecl} (h : DeclarationsAt p decls spans q)
    (h' : DeclarationsAt p decls spans' q') : spans = spans' := by
  induction h generalizing spans' with
  | none =>
      cases h' with
      | none => rfl
  | more hdecl _ ih =>
      cases h' with
      | more hdecl' hmore' =>
          obtain ⟨rfl, rfl⟩ := hdecl.unique hdecl'
          rw [ih hmore']

end Derivation

theorem Position.next?_eq_none_iff :
    q.next? = none ↔ ∀ c ∈ q.rest, Text.isBlank c = true := by
  rw [next?, List.head?_eq_none_iff]
  constructor
  · intro h
    have hsplit := List.takeWhile_append_dropWhile (p := Text.isBlank) (l := q.rest)
    rw [show q.rest.dropWhile Text.isBlank = [] from h, List.append_nil] at hsplit
    rw [← hsplit]
    exact List.all_eq_true.mp List.all_takeWhile
  · intro h
    have hnone : ∀ c ∈ ([] : List Char).head?, Text.isBlank c = false := by
      intro c hc
      cases hc
    have hrun := (takeWhile_append_eq h hnone).2
    rwa [List.append_nil] at hrun

theorem Cursor.at_start (source : String) : (Cursor.ofString source).At (.start source) := by
  have hself := Cursor.At.self (Cursor.nonneg_ofString source)
  rwa [position, Cursor.rest_ofString] at hself

theorem Program.parse_eq_ok {source : String} {program : Program} :
    Program.parse source = .ok program ↔
      ∃ c, Rule.program (.ofString source) = (.matched program, c) := by
  rw [Program.parse]
  rcases Rule.program (.ofString source) with ⟨p | - | p, c⟩ <;> simp

theorem Program.parse_of_derives {source : String} {program : Program} {spans : List Span}
    (h : Derives source program spans) : Program.parse source = .ok program := by
  obtain ⟨q, hderives, hblank⟩ := h
  obtain ⟨c, hmatch, -⟩ :=
    gives_program hderives (next?_eq_none_iff.mpr hblank) _ (Cursor.at_start source)
  exact Program.parse_eq_ok.mpr ⟨c, hmatch⟩

theorem Program.derives_of_parse {source : String} {program : Program}
    (h : Program.parse source = .ok program) : ∃ spans, Derives source program spans := by
  obtain ⟨c, hmatch⟩ := Program.parse_eq_ok.mp h
  obtain ⟨decls, hread, rfl⟩ := map_eq_matched.mp hmatch
  obtain ⟨spans, q, ⟨_, rfl, hderives, hend⟩, -⟩ :=
    sound_declarations [] _ c _ decls (Cursor.at_start source) hread
  exact ⟨spans, q, hderives, next?_eq_none_iff.mp hend⟩

theorem Derivation.Derives.unique {source : String} {program program' : Program}
    {spans spans' : List Span} (h : Derives source program spans)
    (h' : Derives source program' spans') : program = program' ∧ spans = spans' := by
  obtain rfl : program = program' := by
    have hparse := Program.parse_of_derives h
    rw [Program.parse_of_derives h'] at hparse
    exact (Except.ok.inj hparse).symm
  obtain ⟨q, hderives, -⟩ := h
  obtain ⟨q', hderives', -⟩ := h'
  exact ⟨rfl, hderives.unique hderives'⟩

/-- A source is read exactly where the grammar derives it; its tree is that of the derivation, of
which there is only one. -/
theorem Program.parse_iff_derives (source : String) :
    (∀ program, Program.parse source = .ok program ↔ ∃ spans, Derives source program spans) ∧
      ∀ program program' spans spans', Derives source program spans →
        Derives source program' spans' → program = program' ∧ spans = spans' :=
  ⟨fun _ => ⟨Program.derives_of_parse, fun ⟨_, h⟩ => Program.parse_of_derives h⟩,
    fun _ _ _ _ => Derives.unique⟩

end KestrelCompiler
