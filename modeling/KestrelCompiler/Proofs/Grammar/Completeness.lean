import KestrelCompiler.Proofs.Grammar.Soundness

/-!
Completeness. From a place where the grammar derives something, the rule gives just that, as long as
what follows could not have prolonged it. So no early choice of a rule loses a derivation.
-/

namespace KestrelCompiler.Rule

open KestrelCompiler.Derivation Position

variable {α β : Type} {p p₁ q : Position}

/-- From `p` the rule gives `x` and stops at `q`. -/
def Gives (r : Rule α) (p : Position) (x : α) (q : Position) : Prop :=
  ∀ c, c.At p → ∃ c', r c = (.matched x, c') ∧ c'.At q

/-- The rule does not apply at `p`. -/
def Refuses (r : Rule α) (p : Position) : Prop :=
  ∀ c, c.At p → ∃ c', r c = (.noMatch, c') ∧ c'.At p

section Calculus

variable {r s : Rule α} {f : α → Rule β} {x : α} {y : β}

theorem gives_pure (x : α) : Gives (pure x) p x p :=
  fun c hc => ⟨c, rfl, hc⟩

theorem gives_bind (hr : Gives r p x p₁) (hf : Gives (f x) p₁ y q) : Gives (r >>= f) p y q := by
  intro c hc
  obtain ⟨c₁, hmatch, hc₁⟩ := hr c hc
  rw [bind_of_matched hmatch]
  exact hf c₁ hc₁

theorem gives_map (hr : Gives r p x q) (g : α → β) : Gives (g <$> r) p (g x) q :=
  gives_bind hr (gives_pure _)

theorem gives_orElse_left (hr : Gives r p x q) : Gives (r <|> s) p x q := by
  intro c hc
  obtain ⟨c', hmatch, hc'⟩ := hr c hc
  exact ⟨c', orElse_of_matched hmatch, hc'⟩

theorem gives_orElse_right (hr : Refuses r p) (hs : Gives s p x q) : Gives (r <|> s) p x q := by
  intro c hc
  obtain ⟨c₁, hmatch, hc₁⟩ := hr c hc
  rw [orElse_of_noMatch hmatch]
  exact hs c₁ hc₁

theorem gives_required (hr : Gives r p x q) (e : Expectation) : Gives (required r e) p x q :=
  gives_orElse_left hr

theorem gives_optional_some (hr : Gives r p x q) : Gives (optional r) p (some x) q :=
  gives_orElse_left (gives_map hr some)

theorem refuses_bind (hr : Refuses r p) : Refuses (r >>= f) p := by
  intro c hc
  obtain ⟨c', hmatch, hc'⟩ := hr c hc
  exact ⟨c', bind_of_noMatch hmatch, hc'⟩

theorem refuses_map (hr : Refuses r p) (g : α → β) : Refuses (g <$> r) p :=
  refuses_bind hr

theorem refuses_orElse (hr : Refuses r p) (hs : Refuses s p) : Refuses (r <|> s) p := by
  intro c hc
  obtain ⟨c₁, hmatch, hc₁⟩ := hr c hc
  rw [orElse_of_noMatch hmatch]
  exact hs c₁ hc₁

theorem gives_optional_none (hr : Refuses r p) : Gives (optional r) p none p :=
  gives_orElse_right (refuses_map hr some) (gives_pure none)

end Calculus

section Lexemes

variable {l : Lexeme} {shape : Shape} {text : String} {t : Token} {ch : Char}

theorem gives_lexeme (hfinds : l.Finds shape) (hsolid : shape.Solid) (h : Reads shape p t q) :
    Gives (lexeme l) p t q :=
  fun _ hc => lexeme_complete hfinds hsolid hc h

theorem refuses_lexeme (hfinds : l.Finds shape) (hsolid : shape.Solid)
    (h : ∀ t q, ¬ Reads shape p t q) : Refuses (lexeme l) p :=
  fun c hc => ⟨c.skipBlank, lexeme_absent hfinds hsolid hc h, hc.skipBlank⟩

theorem gives_token (htext : (Shape.fixed text).Solid) (h : Reads (.fixed text) p t q) :
    Gives (token text) p t q :=
  gives_lexeme (Lexeme.finds_literal htext.ne_nil) htext h

theorem refuses_token (htext : text.toList = [ch]) (hch : Text.isBlank ch = false)
    (h : p.next? ≠ some ch) : Refuses (token text) p := by
  have hsolid := Shape.solid_fixed htext hch
  exact refuses_lexeme (Lexeme.finds_literal hsolid.ne_nil) hsolid
    fun t q hreads => h (hreads.next?_eq htext hch)

theorem gives_identifier (h : Reads .identifier p t q) : Gives (lexeme .identifier) p t q :=
  gives_lexeme Lexeme.finds_identifier Shape.solid_identifier h

theorem gives_keyword (htext : (Shape.fixed text).Solid) (h : Reads (.keyword text) p t q) :
    Gives (lexeme (.keyword text)) p t q :=
  gives_lexeme (Lexeme.finds_keyword htext.ne_nil) htext.keyword h

theorem refuses_keyword (htext : (Shape.fixed text).Solid)
    (h : ∀ t q, ¬ Reads (.keyword text) p t q) : Refuses (lexeme (.keyword text)) p :=
  refuses_lexeme (Lexeme.finds_keyword htext.ne_nil) htext.keyword h

theorem gives_stringLiteral (h : ReadsString p t q) : Gives stringLiteral p t q := by
  intro c hc
  obtain ⟨pieces, hstands, ht⟩ := h
  obtain ⟨hrest, hspan, hq⟩ := (stands_iff rfl (by decide)).mp hstands
  rw [hspan] at hq ht
  rw [StringLiteral.stringLiteral_literal hc.1 (hc.rest_skipBlank.trans hrest), ht,
    hc.location_skipBlank]
  exact ⟨_, rfl, hc.moveTo_walk hrest hq⟩

theorem refuses_stringLiteral (h : p.next? ≠ some '"') : Refuses stringLiteral p := by
  intro c hc
  have hblank := Cursor.nonneg_skipBlank hc.1
  refine ⟨c.skipBlank, ?_, hc.skipBlank⟩
  have hnone : Lexeme.literal "\"" c.skipBlank = none := by
    cases hmark : Lexeme.literal "\"" c.skipBlank with
    | none => rfl
    | some mark =>
        obtain ⟨-, ⟨after, hrest⟩, -⟩ := (Cursor.literal_iff hblank).mp hmark
        rw [hc.rest_skipBlank] at hrest
        exact absurd (by rw [next?, hrest]; rfl) h
  simp only [stringLiteral, hnone]

theorem gives_sees_true (htext : (Shape.fixed text).Solid)
    (h : ∃ t q, Reads (.fixed text) p t q) : Gives (sees (.literal text)) p true p := by
  intro c hc
  refine ⟨c.skipBlank, ?_, hc.skipBlank⟩
  rw [sees_apply, (sees_sound (Lexeme.finds_literal htext.ne_nil) htext hc).mpr h]

theorem gives_hasMore : Gives hasMore p p.next?.isSome p := by
  intro c hc
  refine ⟨c.skipBlank, ?_, hc.skipBlank⟩
  have hend := atEnd_skipBlank hc
  rw [hasMore_apply]
  congr 2
  rw [Bool.eq_iff_iff, Bool.not_eq_true', ← Bool.not_eq_true, hend]
  cases p.next? <;> simp

/-- A list goes on in front of anything but its end. -/
theorem gives_continues {closing : String} (htext : closing.toList = [ch])
    (hch : Text.isBlank ch = false) :
    Gives (continues closing) p (p.next?.any (· ≠ ch)) p := by
  intro c hc
  have hsolid := Shape.solid_fixed htext hch
  refine ⟨c.skipBlank.skipBlank, ?_, hc.skipBlank.skipBlank⟩
  have hsees : (Lexeme.literal closing c.skipBlank.skipBlank).isSome = true ↔ p.next? = some ch := by
    rw [sees_sound (Lexeme.finds_literal hsolid.ne_nil) hsolid hc.skipBlank]
    exact ⟨fun ⟨_, _, hreads⟩ => hreads.next?_eq htext hch, exists_reads_fixed htext hch⟩
  have hend := atEnd_skipBlank hc
  change (Outcome.matched (!c.skipBlank.atEnd &&
    !(Lexeme.literal closing c.skipBlank.skipBlank).isSome), c.skipBlank.skipBlank) = _
  congr 2
  rw [Bool.eq_iff_iff]
  simp only [Bool.and_eq_true, Bool.not_eq_true', Option.any_eq_true, decide_eq_true_eq,
    ← Bool.not_eq_true, hsees, hend]
  cases p.next? <;> simp

theorem gives_continues_false {closing : String} (h : p.next? = some ch)
    (htext : closing.toList = [ch]) (hch : Text.isBlank ch = false) :
    Gives (continues closing) p false p := by
  have hcontinues := @gives_continues p ch closing htext hch
  rwa [h, Option.any_some, decide_eq_false (not_not_intro rfl)] at hcontinues

theorem gives_continues_true {closing : String} {c : Char} (h : p.next? = some c) (hne : c ≠ ch)
    (htext : closing.toList = [ch]) (hch : Text.isBlank ch = false) :
    Gives (continues closing) p true p := by
  have hcontinues := @gives_continues p ch closing htext hch
  rwa [h, Option.any_some, decide_eq_true hne] at hcontinues

end Lexemes

theorem gives_stars {inner type : TypeExpr} {spans : List Span} (h : Stars inner p type spans q)
    (hq : q.next? ≠ some '*') : Gives (stars inner) p type q := by
  induction h with
  | none =>
      rw [stars_eq]
      exact gives_bind (gives_optional_none (refuses_token rfl (by decide) hq)) (gives_pure _)
  | star hstar _ ih =>
      rw [stars_eq]
      exact gives_bind (gives_optional_some (gives_token Shape.solid_star hstar)) (ih hq)

/-- A place after a type. -/
def FollowsType (q : Position) : Prop :=
  ∃ c ∈ q.next?, c = ',' ∨ c = ')' ∨ c = '{'

theorem FollowsType.next?_ne (h : FollowsType q) {ch : Char}
    (hch : ch = '(' ∨ ch = '*' ∨ isIdentChar ch = true) : q.next? ≠ some ch := by
  intro hnext
  obtain ⟨c, hc, hfollows⟩ := h
  obtain rfl : c = ch := Option.some.inj (hc.symm.trans hnext)
  rcases hfollows with rfl | rfl | rfl <;> revert hch <;> decide

/-- A place where a type cannot go on. -/
def EndsType (q : Position) : Prop :=
  ∀ c ∈ q.next?, c ≠ '(' ∧ c ≠ '*' ∧ isIdentChar c = false

theorem FollowsType.ends (h : FollowsType q) : EndsType q := by
  intro c hc
  refine ⟨?_, ?_, ?_⟩
  · rintro rfl
    exact h.next?_ne (.inl rfl) hc
  · rintro rfl
    exact h.next?_ne (.inr (.inl rfl)) hc
  · cases hident : isIdentChar c with
    | false => rfl
    | true => exact absurd hc (h.next?_ne (.inr (.inr hident)))

theorem refuses_identifier (h : ∀ c ∈ p.next?, isIdentChar c = false) :
    Refuses (lexeme .identifier) p := by
  refine refuses_lexeme Lexeme.finds_identifier Shape.solid_identifier fun t q hreads => ?_
  obtain ⟨c, hc, hident⟩ := hreads.next?_identifier
  rw [h c hc] at hident
  cases hident

theorem TypeAt.continues {type : TypeExpr} {spans : List Span} (h : TypeAt p type spans q) :
    Gives (Rule.continues ")") p true p := by
  obtain ⟨c, hc, hfirst⟩ := h.next?
  have hne : c ≠ ')' := by
    rintro rfl
    revert hfirst
    decide
  exact gives_continues_true hc hne rfl (by decide)

theorem refuses_type (h : EndsType p) : Refuses type p := by
  rw [type_eq]
  refine refuses_orElse (refuses_map (refuses_bind ?_) _) (refuses_bind ?_)
  · exact refuses_token rfl (by decide) fun hnext => (h _ hnext).1 rfl
  · exact refuses_identifier fun c hc => (h c hc).2.2

mutual

theorem gives_type {p q : Position} {type : TypeExpr} {spans : List Span} :
    TypeAt p type spans q → EndsType q → Gives Rule.type p type q
  | .named hname hstars, hq => by
    rw [type_eq]
    refine gives_orElse_right (refuses_map (refuses_bind ?_) _) ?_
    · refine refuses_token rfl (by decide) fun hnext => ?_
      obtain ⟨c, hc, hident⟩ := hname.next?_identifier
      rw [hnext] at hc
      cases hc
      exact absurd hident (by decide)
    · exact gives_bind (gives_identifier hname)
        (gives_stars hstars fun hnext => (hq _ hnext).2.1 rfl)
  | .function hs, hq => by
    rw [type_eq]
    exact gives_orElse_left (gives_map (gives_signature hs hq) _)

theorem gives_signature {p q : Position} {s : Signature} {spans : List Span} :
    SignatureAt p s spans q → EndsType q → Gives signature p s q
  | .mk hleft hargs hright hret, hq => by
    refine gives_bind (gives_token Shape.solid_leftParen hleft) ?_
    refine gives_bind (gives_types hargs (hright.next?_eq rfl (by decide)) []) ?_
    refine gives_bind (gives_required (gives_token Shape.solid_rightParen hright) _) ?_
    exact gives_bind (gives_result hret hq) (gives_pure _)

theorem gives_types {p q : Position} {types : List TypeExpr} {spans : List Span} :
    TypesAt p types spans q → q.next? = some ')' → ∀ before,
      Gives (typesOf Rule.type before) p (before ++ types) q
  | .none, hq, before => by
    rw [typesOf_eq forward_type, List.append_nil]
    exact gives_bind (gives_continues_false hq rfl (by decide)) (gives_pure before)
  | .last htype, hq, before => by
    rw [typesOf_eq forward_type]
    refine gives_bind (TypeAt.continues htype) ?_
    have hends := FollowsType.ends ⟨')', hq, .inr (.inl rfl)⟩
    refine gives_bind (gives_required (gives_type htype hends) _) ?_
    refine gives_bind (gives_optional_none (refuses_token rfl (by decide) ?_)) (gives_pure _)
    rw [hq]
    decide
  | .more htype hcomma hmore, hq, before => by
    have hends := FollowsType.ends ⟨',', hcomma.next?_eq rfl (by decide), .inl rfl⟩
    rw [List.append_cons, typesOf_eq forward_type]
    refine gives_bind (TypeAt.continues htype) ?_
    refine gives_bind (gives_required (gives_type htype hends) _) ?_
    refine gives_bind (gives_optional_some (gives_token Shape.solid_comma hcomma)) ?_
    exact gives_types hmore hq _

theorem gives_result {p q : Position} {ret : Option TypeExpr} {spans : List Span} :
    ResultAt p ret spans q → EndsType q → Gives (optional Rule.type) p ret q
  | .none, hq => gives_optional_none (refuses_type hq)
  | .some htype, hq => gives_optional_some (gives_type htype hq)

end

theorem gives_primary {e : Expr} {spans : List Span} (h : PrimaryAt p e spans q) :
    Gives primary p e q := by
  cases h with
  | number hnumber =>
      exact gives_orElse_left
        (gives_map (gives_lexeme Lexeme.finds_numeral Shape.solid_number hnumber) _)
  | string hstring =>
      refine gives_orElse_right (refuses_map ?_ _)
        (gives_orElse_left (gives_map (gives_stringLiteral hstring) _))
      exact refuses_lexeme Lexeme.finds_numeral Shape.solid_number hstring.not_number
  | name hname =>
      refine gives_orElse_right (refuses_map ?_ _) (gives_orElse_right (refuses_map ?_ _) ?_)
      · exact refuses_lexeme Lexeme.finds_numeral Shape.solid_number hname.not_number
      · exact refuses_stringLiteral hname.next?_ne_quote
      · exact gives_map (gives_identifier hname.identifier) _

section Operators

variable {κ : Type} {operators : List (String × κ)}

/-- The operators of one level begin with different characters, none of them a blank. -/
def Apart (operators : List (String × κ)) : Prop :=
  (∀ entry ∈ operators, (Shape.fixed entry.1).Solid) ∧
    operators.Pairwise fun a b => a.1.toList.head? ≠ b.1.toList.head?

/-- The next lexeme is none of the operators. -/
def NoneOf (operators : List (String × κ)) (p : Position) : Prop :=
  ∀ entry ∈ operators, p.next? ≠ entry.1.toList.head?

theorem Reads.head?_eq {text : String} {t : Token} (h : Reads (.fixed text) p t q)
    (hsolid : (Shape.fixed text).Solid) : p.next? = text.toList.head? := by
  obtain ⟨c, more, htext, hc⟩ := hsolid _ [] rfl
  rw [h.next?_eq htext hc, htext]
  rfl

theorem refuses_operator (hsolid : ∀ entry ∈ operators, (Shape.fixed entry.1).Solid)
    (hnone : NoneOf operators p) : Refuses (operator operators) p := by
  induction operators with
  | nil => exact fun c hc => ⟨c, rfl, hc⟩
  | cons entry rest ih =>
      have hentry := hsolid entry List.mem_cons_self
      refine refuses_orElse (refuses_map ?_ _)
        (ih (fun e he => hsolid e (List.mem_cons_of_mem entry he))
          fun e he => hnone e (List.mem_cons_of_mem entry he))
      exact refuses_lexeme (Lexeme.finds_literal hentry.ne_nil) hentry fun t q hreads =>
        hnone entry List.mem_cons_self (Reads.head?_eq hreads hentry)

theorem gives_operator (hapart : Apart operators) {text : String} {kind : κ} {t : Token}
    (hmem : (text, kind) ∈ operators) (h : Reads (.fixed text) p t q) :
    Gives (operator operators) p (t, kind) q := by
  obtain ⟨hsolid, hpairwise⟩ := hapart
  induction operators with
  | nil => cases hmem
  | cons entry rest ih =>
      rw [List.pairwise_cons] at hpairwise
      rcases List.mem_cons.mp hmem with rfl | hmem
      · exact gives_orElse_left
          (gives_map (gives_token (hsolid _ List.mem_cons_self) h) (·, kind))
      · have hentry := hsolid entry List.mem_cons_self
        have htext := hsolid _ (List.mem_cons_of_mem entry hmem)
        refine gives_orElse_right (refuses_map ?_ _)
          (ih hmem (fun e he => hsolid e (List.mem_cons_of_mem entry he)) hpairwise.2)
        refine refuses_lexeme (Lexeme.finds_literal hentry.ne_nil) hentry fun t q hreads => ?_
        exact hpairwise.1 _ hmem ((Reads.head?_eq hreads hentry).symm.trans (Reads.head?_eq h htext))

theorem Apart.eq_of_reads (hapart : Apart operators) {a b : String × κ} {t t' : Token}
    {q' : Position} (ha : a ∈ operators) (hb : b ∈ operators) (h : Reads (.fixed a.1) p t q)
    (h' : Reads (.fixed b.1) p t' q') : a = b := by
  have hheads := (Reads.head?_eq h (hapart.1 a ha)).symm.trans (Reads.head?_eq h' (hapart.1 b hb))
  obtain ⟨-, hpairwise⟩ := hapart
  induction hpairwise with
  | nil => cases ha
  | cons hentry _ ih =>
      rcases List.mem_cons.mp ha with rfl | hrest <;> rcases List.mem_cons.mp hb with rfl | hrest'
      · rfl
      · exact absurd hheads (hentry b hrest')
      · exact absurd hheads.symm (hentry a hrest)
      · exact ih hrest hrest'

variable {level : PrecedenceLevel Operation} {tighter : List (PrecedenceLevel Operation)}
  {operand : Rule Expr} {derives : Position → Expr → List Span → Position → Prop}
  {follows : Position → Prop}

/-- The operands of a level come first and are as complete as what follows them allows. -/
theorem gives_operandsOf (hforward : Forward operand) (hapart : Apart level.operators)
    (hoperand : ∀ p e spans q, derives p e spans q → follows q → Gives operand p e q)
    (hop : ∀ entry ∈ level.operators, ∀ p t q, Reads (.fixed entry.1) p t q → follows p)
    {left e : Expr} {spans : List Span}
    (h : OperandsAt level.operators derives left p e spans q) (hq : follows q)
    (hnone : NoneOf level.operators q) :
    follows p ∧ Gives (operandsOf .binary operand level left) p e q := by
  induction h with
  | none =>
      refine ⟨hq, ?_⟩
      rw [operandsOf_eq hforward]
      exact gives_bind (gives_optional_none (refuses_operator hapart.1 hnone)) (gives_pure _)
  | more hmem hreads hright _ ih =>
      obtain ⟨hfollows, hmore⟩ := ih hq hnone
      refine ⟨hop _ hmem _ _ _ hreads, ?_⟩
      rw [operandsOf_eq hforward]
      refine gives_bind (gives_optional_some (gives_operator hapart hmem hreads)) ?_
      exact gives_bind (gives_required (hoperand _ _ _ _ hright hfollows) _) hmore

theorem gives_climb (hforward : Forward (climb .binary operand tighter))
    (hapart : Apart level.operators)
    (htighter : ∀ p e spans q, derives p e spans q → follows q →
      Gives (climb .binary operand tighter) p e q)
    (hop : ∀ entry ∈ level.operators, ∀ p t q, Reads (.fixed entry.1) p t q → follows p)
    {e : Expr} {spans : List Span} (h : JoinedAt level.operators derives p e spans q)
    (hq : follows q) (hnone : NoneOf level.operators q) :
    Gives (climb .binary operand (level :: tighter)) p e q := by
  cases h with
  | mk hfirst hmore =>
      obtain ⟨hfollows, hgives⟩ := gives_operandsOf hforward hapart htighter hop hmore hq hnone
      exact gives_bind (htighter _ _ _ _ hfirst hfollows) hgives

end Operators

theorem apart_comparison : Apart PrecedenceLevel.comparison.operators :=
  ⟨by simpa [PrecedenceLevel.comparison] using Shape.solid_less, by decide⟩

theorem apart_additive : Apart PrecedenceLevel.additive.operators :=
  ⟨by simpa [PrecedenceLevel.additive] using ⟨Shape.solid_plus, Shape.solid_minus⟩, by decide⟩

/-- No operator stands here. -/
def FollowsExpr (q : Position) : Prop :=
  NoneOf PrecedenceLevel.comparison.operators q ∧ NoneOf PrecedenceLevel.additive.operators q

theorem gives_sum {e : Expr} {spans : List Span} (h : SumAt p e spans q)
    (hq : NoneOf PrecedenceLevel.additive.operators q) :
    Gives (climb .binary primary [PrecedenceLevel.additive]) p e q := by
  have hforward : Forward (climb Expr.binary primary []) := forward_primary
  have hprimary : ∀ p e spans q, PrimaryAt p e spans q → True →
      Gives (climb .binary primary []) p e q := fun _ _ _ _ h _ => gives_primary h
  exact gives_climb hforward apart_additive hprimary (fun _ _ _ _ _ _ => trivial) h
    trivial hq

theorem noneOf_additive_of_less : ∀ entry ∈ PrecedenceLevel.comparison.operators, ∀ p t q,
    Reads (.fixed entry.1) p t q → NoneOf PrecedenceLevel.additive.operators p := by
  intro entry hentry p t q hreads
  rw [List.mem_singleton.mp hentry] at hreads
  rw [NoneOf, Reads.head?_eq hreads Shape.solid_less]
  decide

theorem gives_expression {e : Expr} {spans : List Span} (h : ExprAt p e spans q)
    (hq : FollowsExpr q) : Gives expression p e q :=
  gives_climb (forward_climb forward_primary _) apart_comparison (fun _ _ _ _ => gives_sum)
    noneOf_additive_of_less h hq.2 hq.1

theorem gives_namesAfter {names : List Token} {spans : List Span} (name : String)
    (h : NamesAt p names spans q) (hq : q.next? ≠ some ',') (before : List Token) :
    Gives (namesAfter name before) p (before ++ names) q := by
  induction h generalizing before with
  | last hname =>
      rw [namesAfter_eq]
      refine gives_bind (gives_required (gives_identifier hname) _) ?_
      exact gives_bind (gives_optional_none (refuses_token rfl (by decide) hq)) (gives_pure _)
  | more hname hcomma _ ih =>
      rw [List.append_cons, namesAfter_eq]
      refine gives_bind (gives_required (gives_identifier hname) _) ?_
      exact gives_bind (gives_optional_some (gives_token Shape.solid_comma hcomma)) (ih hq _)

/-- A place after a statement. -/
structure FollowsStatement (q : Position) : Prop where
  next : ∃ c ∈ q.next?, c = '{' ∨ c = '}' ∨ c = ':' ∨ isIdentChar c = true
  not_else : ∀ t q', ¬ Reads (.keyword "else") q t q'

theorem FollowsStatement.next?_ne (h : FollowsStatement q) {ch : Char}
    (hch : ch = ',' ∨ ch = '<' ∨ ch = '+' ∨ ch = '-') : q.next? ≠ some ch := by
  intro hnext
  obtain ⟨c, hc, hfollows⟩ := h.next
  obtain rfl : c = ch := Option.some.inj (hc.symm.trans hnext)
  rcases hch with rfl | rfl | rfl | rfl <;> revert hfollows <;> decide

theorem FollowsStatement.expr (h : FollowsStatement q) : FollowsExpr q := by
  refine ⟨fun entry hentry => ?_, fun entry hentry => ?_⟩
  · rw [List.mem_singleton.mp hentry]
    exact h.next?_ne (.inr (.inl rfl))
  · rcases List.mem_cons.mp hentry with rfl | hentry
    · exact h.next?_ne (.inr (.inr (.inl rfl)))
    · rw [List.mem_singleton.mp hentry]
      exact h.next?_ne (.inr (.inr (.inr rfl)))

theorem followsExpr_of_block {b : Block} {spans : List Span} (h : BlockAt p b spans q) :
    FollowsExpr p := by
  have hnext : p.next? = some '{' := h.next?
  rw [FollowsExpr, NoneOf, NoneOf, hnext]
  decide

theorem followsStatement_of_statement {s : Stmt} {spans : List Span}
    (h : StatementAt p s spans q) : FollowsStatement p := by
  refine ⟨?_, h.not_else⟩
  obtain ⟨c, hc, hfirst⟩ := h.next?
  rcases hfirst with hfirst | hfirst | hfirst <;> exact ⟨c, hc, by simp [hfirst]⟩

theorem followsStatement_of_statements {items : List Stmt} {spans : List Span}
    (h : StatementsAt p items spans q) (hq : FollowsStatement q) : FollowsStatement p := by
  cases h with
  | none => exact hq
  | more hitem _ => exact followsStatement_of_statement hitem

theorem followsStatement_of_brace {t : Token} (h : Reads (.fixed "\x7d") p t q) :
    FollowsStatement p := by
  have hnext : p.next? = some '}' := h.next?_eq rfl (by decide)
  refine ⟨⟨'}', hnext, .inr (.inl rfl)⟩, fun t q' helse => ?_⟩
  have hother : p.next? = some 'e' := helse.next?_keyword rfl (by decide)
  exact absurd (hnext.symm.trans hother) (by decide)

theorem StatementAt.continues {s : Stmt} {spans : List Span} (h : StatementAt p s spans q) :
    Gives (Rule.continues "\x7d") p true p := by
  obtain ⟨c, hc, hfirst⟩ := h.next?
  have hne : c ≠ '}' := by
    rintro rfl
    revert hfirst
    decide
  exact gives_continues_true hc hne rfl (by decide)

theorem refuses_block (h : p.next? ≠ some '{') : Refuses block p := by
  rw [block_eq]
  exact refuses_bind (refuses_token rfl (by decide) h)

theorem gives_returned {marker : Token} {value : Expr} {spans : List Span}
    (hmarker : Reads (.fixed ":") p marker p₁) (hvalue : ExprAt p₁ value spans q)
    (hq : FollowsStatement q) : Gives returned p (.ret marker value) q := by
  refine gives_bind (gives_token Shape.solid_colon hmarker) ?_
  exact gives_bind (gives_required (gives_expression hvalue hq.expr) _) (gives_pure _)

theorem gives_directive {p₂ : Position} {name bang : Token} {args : List Token} {spans : List Span}
    (hname : Reads .directiveName p name p₁) (hbang : Reads (.fixed "!") p₁ bang p₂)
    (hargs : NamesAt p₂ args spans q) (hq : q.next? ≠ some ',') :
    Gives directive p (.directive name bang args) q := by
  refine gives_bind (gives_lexeme Lexeme.finds_directiveName Shape.solid_directiveName hname) ?_
  refine gives_bind (gives_token Shape.solid_bang hbang) ?_
  exact gives_bind (gives_namesAfter _ hargs hq []) (gives_pure _)

/-- Where a statement is neither a block nor a conditional, the rules for these do not apply. -/
theorem gives_statement_of_simple {s : Stmt} (hblock : p.next? ≠ some '{')
    (hif : ∀ t q, ¬ Reads (.keyword "if") p t q) (h : Gives (returned <|> directive) p s q) :
    Gives statement p s q := by
  refine gives_orElse_right (refuses_map (refuses_block hblock) _) (gives_orElse_right ?_ h)
  exact refuses_bind (refuses_keyword Shape.solid_if hif)

mutual

theorem gives_block {p q : Position} {b : Block} {spans : List Span} :
    BlockAt p b spans q → Gives block p b q
  | .mk hleft hitems hright => by
    rw [block_eq]
    refine gives_bind (gives_token Shape.solid_leftBrace hleft) ?_
    refine gives_bind (gives_statements hitems hright []) ?_
    exact gives_bind (gives_required (gives_token Shape.solid_rightBrace hright) _) (gives_pure _)

theorem gives_statements {p q q' : Position} {items : List Stmt} {spans : List Span}
    {right : Token} : StatementsAt p items spans q → Reads (.fixed "\x7d") q right q' →
      ∀ before, Gives (statementsOf statement before) p (before ++ items) q
  | .none, hright, before => by
    have hnext : p.next? = some '}' := hright.next?_eq rfl (by decide)
    rw [statementsOf_eq forward_statement advances_statement, List.append_nil]
    exact gives_bind (gives_continues_false hnext rfl (by decide)) (gives_pure before)
  | .more hitem hmore, hright, before => by
    have hfollows := followsStatement_of_statements hmore (followsStatement_of_brace hright)
    rw [List.append_cons, statementsOf_eq forward_statement advances_statement]
    refine gives_bind (StatementAt.continues hitem) ?_
    exact gives_bind (gives_required (gives_statement hitem hfollows) _)
      (gives_statements hmore hright _)

theorem gives_statement {p q : Position} {s : Stmt} {spans : List Span} :
    StatementAt p s spans q → FollowsStatement q → Gives statement p s q
  | .block hbody, _ => gives_orElse_left (gives_map (gives_block hbody) _)
  | .ifThen hif hcondition hyes, hq => by
    have hnext : p.next? = some 'i' := hif.next?_keyword rfl (by decide)
    refine gives_orElse_right (refuses_map (refuses_block (by simp [hnext])) _)
      (gives_orElse_left ?_)
    refine gives_bind (gives_keyword Shape.solid_if hif) ?_
    refine gives_bind
      (gives_required (gives_expression hcondition (followsExpr_of_block hyes)) _) ?_
    refine gives_bind (gives_required (gives_block hyes) _) ?_
    exact gives_bind (gives_optional_none (refuses_keyword Shape.solid_else hq.not_else))
      (gives_pure _)
  | .ifElse hif hcondition hyes helse hno, _ => by
    have hnext : p.next? = some 'i' := hif.next?_keyword rfl (by decide)
    refine gives_orElse_right (refuses_map (refuses_block (by simp [hnext])) _)
      (gives_orElse_left ?_)
    refine gives_bind (gives_keyword Shape.solid_if hif) ?_
    refine gives_bind
      (gives_required (gives_expression hcondition (followsExpr_of_block hyes)) _) ?_
    refine gives_bind (gives_required (gives_block hyes) _) ?_
    refine gives_bind (gives_optional_some (gives_keyword Shape.solid_else helse)) ?_
    exact gives_bind (gives_required (gives_block hno) _) (gives_pure _)
  | .ret hmarker hvalue, hq => by
    have hnext : p.next? = some ':' := hmarker.next?_eq rfl (by decide)
    refine gives_statement_of_simple (by simp [hnext]) (fun t q hif => ?_)
      (gives_orElse_left (gives_returned hmarker hvalue hq))
    have hfirst : p.next? = some 'i' := hif.next?_keyword rfl (by decide)
    exact absurd (hnext.symm.trans hfirst) (by decide)
  | .directive hname hbang hargs, hq => by
    obtain ⟨c, hc, hident⟩ := hname.next?_directiveName
    have hne : ∀ ch, isIdentChar ch = false → p.next? ≠ some ch := by
      rintro ch hch hnext
      rw [hc] at hnext
      cases hnext
      rw [hch] at hident
      cases hident
    refine gives_statement_of_simple (hne '{' (by decide))
      (fun t q => not_reads_keyword_of_directiveName Shape.solid_if (List.all_eq_true.mp rfl) hname)
      (gives_orElse_right ?_ (gives_directive hname hbang hargs (hq.next?_ne (.inl rfl))))
    exact refuses_bind (refuses_token rfl (by decide) (hne ':' (by decide)))

end

theorem followsType_of_block {b : Block} {spans : List Span} (h : BlockAt p b spans q) :
    FollowsType p :=
  ⟨'{', h.next?, .inr (.inr rfl)⟩

theorem gives_declaration {d : FunctionDecl} {spans : List Span} (h : DeclarationAt p d spans q) :
    Gives declaration p d q := by
  cases h with
  | mk hname hs hbody =>
      have hopens := @exists_reads_fixed "(" _ '(' rfl (by decide) hs.next?
      refine gives_bind (gives_identifier hname) ?_
      refine gives_bind (gives_sees_true Shape.solid_leftParen hopens) ?_
      refine gives_bind (gives_required (gives_signature hs (followsType_of_block hbody).ends) _) ?_
      exact gives_bind (gives_required (gives_block hbody) _) (gives_pure _)

theorem gives_declarations {decls : List FunctionDecl} {spans : List Span}
    (h : DeclarationsAt p decls spans q) (hq : q.next? = none) (before : List FunctionDecl) :
    Gives (declarations before) p (before ++ decls) q := by
  induction h generalizing before with
  | none =>
      rw [declarations_eq, List.append_nil]
      refine gives_bind gives_hasMore ?_
      rw [hq]
      exact gives_pure before
  | more hdecl _ ih =>
      obtain ⟨c, hc, -⟩ := hdecl.next?
      rw [List.append_cons, declarations_eq]
      refine gives_bind gives_hasMore ?_
      rw [Option.isSome_of_mem hc]
      exact gives_bind (gives_required (gives_declaration hdecl) _) (ih hq _)

theorem gives_program {program : Program} {spans : List Span}
    (h : DeclarationsAt p program.declarations spans q) (hq : q.next? = none) :
    Gives Rule.program p program q :=
  gives_map (gives_declarations h hq []) Program.mk

end KestrelCompiler.Rule
