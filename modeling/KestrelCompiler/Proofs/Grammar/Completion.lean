import Mathlib.Logic.Relation
import KestrelCompiler.Proofs.Grammar.Refusal
import KestrelCompiler.Proofs.Grammar.Repair
import KestrelCompiler.Proofs.Grammar.Unambiguity

/-!
Completion of a source that is refused. Wherever a rule fails, what was read up to its problem can
be gone on with so that the grammar derives it: this holds of every lexeme and literal, and each way
to compose rules keeps it. So a problem is never reported behind the point where a source goes
wrong, but for the digits of a surrogate.
-/

namespace KestrelCompiler

open Position Relation StringLiteral

namespace Rule

variable {α β σ : Type} {R S T : Position → Position → Prop}

/-- Where the rule matches, the cursor has gone a way that stays open; where it fails, what was read
can be repaired so that there is such a way. -/
structure Mendable (r : Rule α) (R : Position → Position → Prop) : Prop where
  leads : ∀ c c' p a, c.At p → r c = (.matched a, c') → ∃ q, Moves R p q ∧ c'.At q
  repairs : ∀ c c' p problem, c.At p → r c = (.failed problem, c') →
    Repairs R p problem.location
  spells : Spells R

section Composed

variable {r s : Rule α} {f : α → Rule β}

theorem Mendable.mono (h : Mendable r R) (hle : ∀ p q, R p q → T p q) : Mendable r T where
  leads c c' p a hc hmatch := by
    obtain ⟨q, hmoves, hq⟩ := h.leads c c' p a hc hmatch
    exact ⟨q, hmoves.mono hle, hq⟩
  repairs c c' p problem hc hfailed := (h.repairs c c' p problem hc hfailed).mono hle
  spells := h.spells.mono hle

theorem mendable_never (hR : Spells R) : Mendable (never : Rule α) R where
  leads _ _ _ _ _ h := nomatch h
  repairs _ _ _ _ _ h := nomatch h
  spells := hR

theorem mendable_pure (h : ∀ p, R p p) (a : α) : Mendable (pure a) R where
  leads c _ p _ hc hmatch := by
    cases hmatch
    exact ⟨p, moves_refl h p, hc⟩
  repairs _ _ _ _ _ h := nomatch h
  spells := spells_refl h

theorem mendable_fail (hR : Spells R) (e : Expectation) : Mendable (fail e : Rule α) R where
  leads _ _ _ _ _ h := nomatch h
  repairs c _ p _ hc hfailed := by
    cases hfailed
    rw [Expectation.problem, hc.location_skipBlank]
    exact repairs_of_spells hR p
  spells := hR

theorem mendable_bind [Inhabited α] (hr : Mendable r R) (hf : ∀ a, Mendable (f a) S) :
    Mendable (r >>= f) (Comp R S) where
  leads c c' p b hc hmatch := by
    obtain ⟨a, c₁, hfirst, hthen⟩ := bind_eq_matched.mp hmatch
    obtain ⟨m, hmoves, hm⟩ := hr.leads c c₁ p a hc hfirst
    obtain ⟨q, hmoves', hq⟩ := (hf a).leads c₁ c' m b hm hthen
    exact ⟨q, hmoves.comp hmoves', hq⟩
  repairs c c' p problem hc hfailed := by
    rcases bind_eq_failed.mp hfailed with hfirst | ⟨a, c₁, hfirst, hthen⟩
    · exact (hr.repairs c c' p problem hc hfirst).andThen (hf default).spells
    · obtain ⟨m, hmoves, hm⟩ := hr.leads c c₁ p a hc hfirst
      exact ((hf a).repairs c₁ c' m problem hm hthen).after hmoves
  spells := hr.spells.comp (hf default).spells

/-- A rule that only looks ahead is no part of the way. -/
theorem mendable_look [Inhabited α] (hr : Mendable r Eq) (hf : ∀ a, Mendable (f a) S) :
    Mendable (r >>= f) S :=
  (mendable_bind hr hf).mono fun p q ⟨m, hm, hS⟩ => by
    rw [hm]
    exact hS

theorem mendable_map [Inhabited α] (hr : Mendable r R) (g : α → β) : Mendable (g <$> r) R :=
  (mendable_bind hr fun a => mendable_pure (R := Eq) (fun _ => rfl) (g a)).mono
    fun p q ⟨m, hR, hm⟩ => by
      rw [← hm]
      exact hR

theorem mendable_orElse (hr : Mendable r R) (hsteady : Steady r) (hs : Mendable s R) :
    Mendable (r <|> s) R where
  leads c c' p a hc hmatch := by
    rcases orElse_eq_matched.mp hmatch with hmatch | ⟨c₁, hnone, hmatch⟩
    · exact hr.leads c c' p a hc hmatch
    · exact hs.leads c₁ c' p a (hsteady c c₁ p hc hnone) hmatch
  repairs c c' p problem hc hfailed := by
    rcases orElse_eq_failed.mp hfailed with hfailed | ⟨c₁, hnone, hfailed⟩
    · exact hr.repairs c c' p problem hc hfailed
    · exact hs.repairs c₁ c' p problem (hsteady c c₁ p hc hnone) hfailed
  spells := hr.spells

theorem mendable_required (hr : Mendable r R) (hsteady : Steady r) (e : Expectation) :
    Mendable (required r e) R :=
  mendable_orElse hr hsteady (mendable_fail hr.spells e)

theorem mendable_ite {b : Bool} (hr : Mendable r R) (hs : Mendable s R) :
    Mendable (if b then r else s) R := by
  cases b with
  | false => exact hs
  | true => exact hr

/-- After an optional part another way is open than without it. -/
theorem mendable_optional_bind [Inhabited α] {k : Option α → Rule β} (hr : Mendable r R)
    (hsteady : Steady r) (hsome : ∀ a, Mendable (k (some a)) S) (hnone : Mendable (k none) T)
    (hT : ∀ p q, Comp R S p q → T p q) : Mendable (optional r >>= k) T where
  leads c c' p b hc hmatch := by
    obtain ⟨o, c₁, hfirst, hthen⟩ := bind_eq_matched.mp hmatch
    cases o with
    | none => exact hnone.leads c₁ c' p b (hsteady c c₁ p hc (optional_eq_none.mp hfirst)) hthen
    | some a =>
        have hsecond := bind_of_matched (f := fun a => k (some a)) (optional_eq_some.mp hfirst)
        exact ((mendable_bind hr hsome).mono hT).leads c c' p b hc (hsecond.trans hthen)
  repairs c c' p problem hc hfailed := by
    have hboth := (mendable_bind hr hsome).mono hT
    rcases bind_eq_failed.mp hfailed with hfirst | ⟨o, c₁, hfirst, hthen⟩
    · refine hboth.repairs c c' p problem hc (bind_eq_failed.mpr (.inl ?_))
      exact optional_eq_failed.mp hfirst
    · cases o with
      | none =>
          have hc₁ := hsteady c c₁ p hc (optional_eq_none.mp hfirst)
          exact hnone.repairs c₁ c' p problem hc₁ hthen
      | some a =>
          refine hboth.repairs c c' p problem hc (bind_eq_failed.mpr (.inr ?_))
          exact ⟨a, c₁, optional_eq_some.mp hfirst, hthen⟩
  spells := hnone.spells

theorem mendable_fix {step : (σ → Rule α) → σ → Rule α} (hR : Spells R)
    (h : ∀ f, (∀ s, Mendable (f s) R) → ∀ s, Mendable (step f s) R) (s : σ) :
    Mendable (fix step s) R := by
  have hunroll : ∀ n s, Mendable (unroll step n s) R := by
    intro n
    induction n with
    | zero => exact fun _ => mendable_never hR
    | succ n ih => exact h _ ih
  exact ⟨fun c => (hunroll (c.remaining + 1) s).leads c,
    fun c => (hunroll (c.remaining + 1) s).repairs c, hR⟩

/-- The same for rules whose steps ask more of the rule itself. -/
theorem mendable_fix_of_steady {P : Rule α → Prop} {step : (σ → Rule α) → σ → Rule α}
    (hP : Local P) (hguarded : Guarded P step) (hR : Spells R)
    (h : ∀ f, (∀ s, P (f s)) → (∀ s, Steady (f s)) → (∀ s, Mendable (f s) R) →
      ∀ s, Steady (step f s) ∧ Mendable (step f s) R) (s : σ) : Mendable (fix step s) R := by
  have hunroll : ∀ n s, Steady (unroll step n s) ∧ Mendable (unroll step n s) R := by
    intro n
    induction n with
    | zero =>
        refine fun s => ⟨?_, mendable_never hR⟩
        rintro c _ p hc ⟨⟩
        exact hc
    | succ n ih => exact h _ (keeps_unroll hP hguarded n) (fun s => (ih s).1) fun s => (ih s).2
  exact ⟨fun c => (hunroll (c.remaining + 1) s).2.leads c,
    fun c => (hunroll (c.remaining + 1) s).2.repairs c, hR⟩

end Composed

section Lexemes

theorem steady_of_appliesTo {r : Rule α} {opens : List Char → Prop} (h : AppliesTo r opens) :
    Steady r := by
  intro c c' p hc hnone
  rw [h.still c c' hnone]
  exact hc.skipBlank

theorem mendable_lexeme {l : Lexeme} {shape : Shape} (hfinds : l.Finds shape)
    (hsolid : shape.Solid) (hlasting : shape.Lasting) (hspells : Spells (Passes shape)) :
    Mendable (lexeme l) (Passes shape) where
  leads c c' p t hc hmatch := by
    obtain ⟨q, hreads, hq⟩ := lexeme_sound hfinds hsolid hc hmatch
    exact ⟨q, hreads.moves hlasting, hq⟩
  repairs _ _ _ _ _ hfailed := absurd hfailed lexeme_ne_failed
  spells := hspells

theorem mendable_token {text : String} (hsolid : (Shape.fixed text).Solid) :
    Mendable (token text) (Passes (.fixed text)) :=
  mendable_lexeme (Lexeme.finds_literal hsolid.ne_nil) hsolid (Shape.lasting_fixed text)
    (spells_fixed text)

theorem mendable_expect {text : String} (hsolid : (Shape.fixed text).Solid) :
    Mendable (expect text) (Passes (.fixed text)) :=
  mendable_required (mendable_token hsolid) (steady_token text) _

theorem mendable_keyword {text : String} (hsolid : (Shape.fixed text).Solid) :
    Mendable (lexeme (.keyword text)) (Passes (.keyword text)) :=
  mendable_lexeme (Lexeme.finds_keyword hsolid.ne_nil) hsolid.keyword (Shape.lasting_keyword text)
    (spells_keyword text)

theorem mendable_identifier : Mendable (lexeme .identifier) (Passes .identifier) :=
  mendable_lexeme Lexeme.finds_identifier Shape.solid_identifier Shape.lasting_identifier
    spells_identifier

theorem mendable_sees (l : Lexeme) : Mendable (sees l) Eq where
  leads c _ p _ hc hmatch := by
    cases hmatch
    exact ⟨p, moves_refl (fun _ => rfl) p, hc.skipBlank⟩
  repairs _ _ _ _ _ h := nomatch h
  spells := spells_refl fun _ => rfl

theorem mendable_hasMore : Mendable hasMore Eq where
  leads c _ p _ hc hmatch := by
    cases hmatch
    exact ⟨p, moves_refl (fun _ => rfl) p, hc.skipBlank⟩
  repairs _ _ _ _ _ h := nomatch h
  spells := spells_refl fun _ => rfl

theorem mendable_continues (closing : String) : Mendable (continues closing) Eq :=
  mendable_look mendable_hasMore fun _ => mendable_look (mendable_sees _) fun _ =>
    mendable_pure (fun _ => rfl) _

theorem mendable_stringLiteral : Mendable stringLiteral PassesString where
  leads c c' p t hc hmatch := by
    obtain ⟨q, hreads, hq⟩ := stringLiteral_sound hc hmatch
    exact ⟨q, hreads.moves, hq⟩
  repairs c c' p problem hc hfailed := by
    obtain ⟨front, after, hrest, hlocation, hfront⟩ := stringLiteral_failed hc.1 hfailed
    rw [hc.rest_skipBlank] at hrest
    rw [hlocation, hc.location_skipBlank]
    exact repairs_string hrest hfront
  spells := spells_passesString

end Lexemes

end Rule

instance : Inhabited Token := ⟨⟨⟨.start, .start⟩, "", false⟩⟩
instance : Inhabited TypeExpr := ⟨.named default⟩
instance : Inhabited Signature := ⟨⟨[], none, default, default⟩⟩
instance : Inhabited Expr := ⟨.name default⟩
instance : Inhabited Block := ⟨.mk default [] default⟩
instance : Inhabited Stmt := ⟨.block default⟩
instance : Inhabited FunctionDecl := ⟨⟨default, default, default⟩⟩

namespace Derivation

variable {α : Type}

/-- Something is derived from `p` to `q`. -/
def Leads (derives : Position → α → List Span → Position → Prop) (p q : Position) : Prop :=
  ∃ x spans, derives p x spans q

def StarsLead (p q : Position) : Prop :=
  ∀ inner, Leads (Stars inner) p q

def OperandsLead (operators : List (String × Operation))
    (operand : Position → Expr → List Span → Position → Prop) (p q : Position) : Prop :=
  ∀ left, Leads (OperandsAt operators operand left) p q

/-- Nothing, or a comma and what comes after it. -/
def MoreLead (R : Position → Position → Prop) (p q : Position) : Prop :=
  p = q ∨ Comp (Passes (.fixed ",")) R p q

theorem leads_refl {derives : Position → List α → List Span → Position → Prop}
    (h : ∀ p, derives p [] [] p) (p : Position) : Leads derives p p :=
  ⟨[], [], h p⟩

end Derivation

namespace Rule

open KestrelCompiler.Derivation

theorem mendable_stars (inner : TypeExpr) : Mendable (stars inner) StarsLead := by
  have hnone : ∀ p, StarsLead p p := fun p inner => ⟨inner, [], .none⟩
  refine mendable_fix (spells_refl hnone) (fun f h inner => ?_) inner
  refine mendable_optional_bind (mendable_token Shape.solid_star) (steady_token "*")
    (fun star => h (.pointer inner star)) (mendable_pure hnone inner) ?_
  rintro p q ⟨m, ⟨star, hstar⟩, hmore⟩ inner
  obtain ⟨type, spans, hstars⟩ := hmore (.pointer inner star)
  exact ⟨type, _, .star hstar hstars⟩

section Types

variable {type : Rule TypeExpr}

theorem mendable_typesOf (htype : Mendable type (Leads TypeAt)) (hsteady : Steady type)
    (types : List TypeExpr) : Mendable (typesOf type types) (Leads TypesAt) := by
  have hnone : ∀ p, Leads TypesAt p p := leads_refl fun _ => .none
  refine mendable_fix (spells_refl hnone) (fun f h types => ?_) types
  refine mendable_look (mendable_continues ")") fun more => mendable_ite ?_ (mendable_pure hnone _)
  refine Mendable.mono (mendable_bind (S := MoreLead (Leads TypesAt))
    (mendable_required htype hsteady _) fun next => ?_) ?_
  · exact mendable_optional_bind (mendable_token Shape.solid_comma) (steady_token ",")
      (fun _ => h (types ++ [next])) (mendable_pure (fun _ => .inl rfl) _) fun _ _ => .inr
  · rintro p q ⟨m, ⟨next, spans, hnext⟩, rfl | ⟨_, ⟨comma, hcomma⟩, more, _, hmore⟩⟩
    · exact ⟨[next], spans, .last hnext⟩
    · exact ⟨next :: more, _, .more hnext hcomma hmore⟩

theorem mendable_signatureOf (htype : Mendable type (Leads TypeAt)) (hsteady : Steady type) :
    Mendable (signatureOf type) (Leads SignatureAt) := by
  have hnone : ∀ p, Leads ResultAt p p := fun p => ⟨none, [], .none⟩
  refine Mendable.mono (mendable_bind (mendable_token Shape.solid_leftParen) fun left =>
    mendable_bind (mendable_typesOf htype hsteady []) fun args =>
      mendable_bind (S := Leads ResultAt) (mendable_expect Shape.solid_rightParen)
        fun right => ?_) ?_
  · refine mendable_optional_bind htype hsteady
      (fun ret => mendable_pure (R := Eq) (fun _ => rfl) _) (mendable_pure hnone _) ?_
    rintro p q ⟨m, ⟨ret, spans, hret⟩, rfl⟩
    exact ⟨some ret, spans, .some hret⟩
  · rintro p q ⟨_, ⟨left, hleft⟩, _, ⟨args, _, hargs⟩, _, ⟨right, hright⟩, ret, _, hret⟩
    exact ⟨_, _, .mk hleft hargs hright hret⟩

end Types

theorem mendable_namedType : Mendable namedType (Leads TypeAt) := by
  refine (mendable_bind mendable_identifier fun name => mendable_stars (.named name)).mono ?_
  rintro p q ⟨m, ⟨name, hname⟩, hstars⟩
  obtain ⟨type, spans, hstars⟩ := hstars (.named name)
  exact ⟨type, _, .named hname hstars⟩

theorem mendable_type : Mendable type (Leads TypeAt) := by
  refine mendable_fix_of_steady local_forward guarded_typeStep mendable_namedType.spells ?_ ()
  intro f hforward hsteady hf s
  have hopen := steady_map (steady_signatureOf (hforward s)) Signature.toType
  refine ⟨steady_orElse hopen (steady_bind (steady_lexeme _) fun name => committed_stars _),
    mendable_orElse ?_ hopen mendable_namedType⟩
  refine (mendable_map (mendable_signatureOf (hf s) (hsteady s)) _).mono ?_
  rintro p q ⟨signature, spans, hsignature⟩
  exact ⟨_, spans, .function hsignature⟩

theorem mendable_signature : Mendable signature (Leads SignatureAt) :=
  mendable_signatureOf mendable_type steady_type

theorem mendable_primary : Mendable primary (Leads PrimaryAt) where
  leads c c' p e hc hmatch := by
    obtain ⟨spans, q, hderives, hq⟩ := sound_primary c c' p e hc hmatch
    refine ⟨q, ?_, hq⟩
    cases hderives with
    | number h => exact (h.moves Shape.lasting_number).mono fun _ _ ⟨_, h⟩ => ⟨_, _, .number h⟩
    | string h => exact h.moves.mono fun _ _ ⟨_, h⟩ => ⟨_, _, .string h⟩
    | name h => exact (h.moves Shape.lasting_name).mono fun _ _ ⟨_, h⟩ => ⟨_, _, .name h⟩
  repairs c c' p problem hc hfailed := by
    rcases orElse_eq_failed.mp hfailed with hnumber | ⟨c₁, hnumber, hfailed⟩
    · exact absurd (map_eq_failed.mp hnumber) lexeme_ne_failed
    have hc₁ := steady_map (steady_lexeme _) _ c c₁ p hc hnumber
    rcases orElse_eq_failed.mp hfailed with hstring | ⟨c₂, -, hname⟩
    · exact (mendable_stringLiteral.repairs c₁ c' p problem hc₁ (map_eq_failed.mp hstring)).mono
        fun _ _ ⟨_, h⟩ => ⟨_, _, .string h⟩
    · exact absurd (map_eq_failed.mp hname) lexeme_ne_failed
  spells := spells_name.mono fun _ _ ⟨_, h⟩ => ⟨_, _, .name h⟩

section Operators

variable {operand : Rule Expr} {derives : Position → Expr → List Span → Position → Prop}
  {operators : List (String × Operation)}

/-- One of the operators leads from `p` to `q`. -/
def OperatorLeads (operators : List (String × Operation)) (p q : Position) : Prop :=
  ∃ text operation op, (text, operation) ∈ operators ∧ Reads (.fixed text) p op q

theorem operator_ne_failed {c c' : Cursor} {problem : Problem} :
    operator operators c ≠ (.failed problem, c') := by
  induction operators generalizing c with
  | nil => exact nofun
  | cons entry rest ih =>
      intro hfailed
      rcases orElse_eq_failed.mp hfailed with h | ⟨c₁, -, h⟩
      · exact lexeme_ne_failed (map_eq_failed.mp h)
      · exact ih h

theorem mendable_operator (hsolid : ∀ entry ∈ operators, (Shape.fixed entry.1).Solid)
    (hne : operators ≠ []) : Mendable (operator operators) (OperatorLeads operators) where
  leads c c' p op hc hmatch := by
    obtain ⟨text, q, hmem, hreads, hq⟩ := operator_sound hsolid hc hmatch
    exact ⟨q, (hreads.moves (Shape.lasting_fixed text)).mono fun _ _ ⟨t, h⟩ =>
      ⟨text, op.2, t, hmem, h⟩, hq⟩
  repairs _ _ _ _ _ hfailed := absurd hfailed operator_ne_failed
  spells := by
    obtain ⟨entry, hentry⟩ := List.exists_mem_of_ne_nil operators hne
    exact (spells_fixed entry.1).mono fun _ _ ⟨t, h⟩ => ⟨entry.1, entry.2, t, hentry, h⟩

variable {level : PrecedenceLevel Operation}
  (hsolid : ∀ entry ∈ level.operators, (Shape.fixed entry.1).Solid) (hne : level.operators ≠ [])
include hsolid hne

theorem mendable_operandsOf (hoperand : Mendable operand (Leads derives))
    (hsteady : Steady operand) (left : Expr) :
    Mendable (operandsOf .binary operand level left) (OperandsLead level.operators derives) := by
  have hnone : ∀ p, OperandsLead level.operators derives p p := fun p left => ⟨left, [], .none⟩
  have hop : Inhabited (Token × Operation) := ⟨default, .less⟩
  refine mendable_fix (spells_refl hnone) (fun f h left => ?_) left
  refine mendable_optional_bind (mendable_operator hsolid hne) (steady_operator _)
    (fun op => mendable_bind (mendable_required hoperand hsteady _) fun right => h _)
    (mendable_pure hnone left) ?_
  rintro p q ⟨_, ⟨text, operation, op, hmem, hop⟩, _, ⟨right, _, hright⟩, hmore⟩ left
  obtain ⟨e, _, hmore⟩ := hmore (.binary operation left op right)
  exact ⟨e, _, .more hmem hop hright hmore⟩

theorem mendable_climb {tighter : List (PrecedenceLevel Operation)}
    (hoperand : Mendable (climb .binary operand tighter) (Leads derives))
    (hsteady : Steady (climb .binary operand tighter)) :
    Mendable (climb .binary operand (level :: tighter))
      (Leads (JoinedAt level.operators derives)) := by
  refine (mendable_bind hoperand fun first =>
    mendable_operandsOf hsolid hne hoperand hsteady first).mono ?_
  rintro p q ⟨m, ⟨first, _, hfirst⟩, hmore⟩
  obtain ⟨e, _, hmore⟩ := hmore first
  exact ⟨e, _, .mk hfirst hmore⟩

end Operators

theorem steady_climb_primary (levels : List (PrecedenceLevel Operation)) :
    Steady (climb .binary primary levels) :=
  steady_of_appliesTo (appliesTo_climb appliesTo_primary forward_primary levels)

theorem mendable_expression : Mendable expression (Leads ExprAt) := by
  refine mendable_climb apart_comparison.1 (by decide) ?_ (steady_climb_primary _)
  exact mendable_climb apart_additive.1 (by decide) mendable_primary (steady_climb_primary [])

theorem steady_expression : Steady expression :=
  steady_climb_primary _

theorem mendable_namesAfter (name : String) (names : List Token) :
    Mendable (namesAfter name names) (Leads NamesAt) := by
  have hlast : ∀ p q, Passes .identifier p q → Leads NamesAt p q :=
    fun p q ⟨next, hnext⟩ => ⟨[next], _, .last hnext⟩
  refine mendable_fix (spells_identifier.mono hlast) (fun f h names => ?_) names
  refine Mendable.mono (mendable_bind (S := MoreLead (Leads NamesAt))
    (mendable_required mendable_identifier (steady_lexeme _) _) fun next => ?_) ?_
  · exact mendable_optional_bind (mendable_token Shape.solid_comma) (steady_token ",")
      (fun _ => h (names ++ [next])) (mendable_pure (fun _ => .inl rfl) _) fun _ _ => .inr
  · rintro p q ⟨m, ⟨next, hnext⟩, rfl | ⟨_, ⟨comma, hcomma⟩, more, _, hmore⟩⟩
    · exact hlast p _ ⟨next, hnext⟩
    · exact ⟨next :: more, _, .more hnext hcomma hmore⟩

/-- The `!` of a directive touches its name, so it is no place where the directive breaks off. -/
theorem mendable_directive : Mendable directive (Leads StatementAt) := by
  have hdirective : ∀ p q, Comp (Comp (Passes .directiveName) (Passes (.fixed "!")))
      (Leads NamesAt) p q → Leads StatementAt p q := by
    rintro p q ⟨_, ⟨_, ⟨name, hname⟩, bang, hbang⟩, args, _, hargs⟩
    exact ⟨_, _, .directive hname hbang hargs⟩
  refine ⟨fun c c' p s hc hmatch => ?_, fun c c' p problem hc hfailed => ?_, ?_⟩
  · obtain ⟨name, c₁, hrun, hmatch⟩ := bind_eq_matched.mp hmatch
    obtain ⟨p₁, hname, hc₁⟩ :=
      lexeme_sound Lexeme.finds_directiveName Shape.solid_directiveName hc hrun
    obtain ⟨bang, c₂, hrun, hmatch⟩ := bind_eq_matched.mp hmatch
    obtain ⟨p₂, hbang, hc₂⟩ := token_sound Shape.solid_bang hc₁ hrun
    obtain ⟨q, hargs, hq⟩ := (mendable_map (mendable_namesAfter name.text [])
      (Stmt.directive name bang)).leads c₂ c' p₂ s hc₂ hmatch
    exact ⟨q, ((moves_directive hname hbang).comp hargs).mono hdirective, hq⟩
  · rcases bind_eq_failed.mp hfailed with hrun | ⟨name, c₁, hrun, hfailed⟩
    · exact absurd hrun lexeme_ne_failed
    obtain ⟨p₁, hname, hc₁⟩ :=
      lexeme_sound Lexeme.finds_directiveName Shape.solid_directiveName hc hrun
    rcases bind_eq_failed.mp hfailed with hrun | ⟨bang, c₂, hrun, hfailed⟩
    · exact absurd hrun lexeme_ne_failed
    obtain ⟨p₂, hbang, hc₂⟩ := token_sound Shape.solid_bang hc₁ hrun
    have hargs := (mendable_map (mendable_namesAfter name.text [])
      (Stmt.directive name bang)).repairs c₂ c' p₂ problem hc₂ hfailed
    exact (hargs.after (moves_directive hname hbang)).mono hdirective
  · exact (spells_directive.comp (mendable_namesAfter "" []).spells).mono hdirective

theorem steady_directive : Steady directive :=
  steady_of_appliesTo appliesTo_directive

theorem mendable_returned : Mendable returned (Leads StatementAt) := by
  refine Mendable.mono (mendable_bind (mendable_token Shape.solid_colon) fun marker =>
    mendable_map (mendable_required mendable_expression steady_expression _) _) ?_
  rintro p q ⟨m, ⟨marker, hmarker⟩, value, _, hvalue⟩
  exact ⟨_, _, .ret hmarker hvalue⟩

section Blocks

variable {block : Rule Block} {statement : Rule Stmt}

/-- Nothing, or another branch. -/
def AlternativeLeads (p q : Position) : Prop :=
  p = q ∨ Comp (Passes (.keyword "else")) (Leads BlockAt) p q

theorem mendable_alternativeOf (hblock : Mendable block (Leads BlockAt)) (hsteady : Steady block)
    (keyword : Token) (condition : Expr) (yes : Block) :
    Mendable (alternativeOf block keyword condition yes) AlternativeLeads :=
  mendable_optional_bind (mendable_keyword Shape.solid_else) (steady_lexeme _)
    (fun _ => mendable_map (mendable_required hblock hsteady _) _)
    (mendable_pure (fun _ => .inl rfl) _) fun _ _ => .inr

theorem mendable_conditionalOf (hblock : Mendable block (Leads BlockAt)) (hsteady : Steady block) :
    Mendable (conditionalOf block) (Leads StatementAt) := by
  refine Mendable.mono (mendable_bind (mendable_keyword Shape.solid_if) fun keyword =>
    mendable_bind (mendable_required mendable_expression steady_expression _) fun condition =>
      mendable_bind (mendable_required hblock hsteady _) fun yes =>
        mendable_alternativeOf hblock hsteady keyword condition yes) ?_
  rintro p q ⟨_, ⟨keyword, hif⟩, _, ⟨condition, _, hcondition⟩, _, ⟨yes, _, hyes⟩,
    rfl | ⟨_, ⟨other, helse⟩, no, _, hno⟩⟩
  · exact ⟨_, _, .ifThen hif hcondition hyes⟩
  · exact ⟨_, _, .ifElse hif hcondition hyes helse hno⟩

theorem steady_statementOf (hsteady : Steady block) : Steady (statementOf block) :=
  steady_orElse (steady_map hsteady _) (steady_orElse (steady_conditionalOf block)
    (steady_orElse steady_returned steady_directive))

theorem mendable_statementOf (hblock : Mendable block (Leads BlockAt)) (hsteady : Steady block) :
    Mendable (statementOf block) (Leads StatementAt) := by
  refine mendable_orElse ((mendable_map hblock _).mono ?_) (steady_map hsteady _)
    (mendable_orElse (mendable_conditionalOf hblock hsteady) (steady_conditionalOf block)
      (mendable_orElse mendable_returned steady_returned mendable_directive))
  rintro p q ⟨body, _, hbody⟩
  exact ⟨_, _, .block hbody⟩

theorem mendable_statementsOf (hstatement : Mendable statement (Leads StatementAt))
    (hsteady : Steady statement) (items : List Stmt) :
    Mendable (statementsOf statement items) (Leads StatementsAt) := by
  have hnone : ∀ p, Leads StatementsAt p p := leads_refl fun _ => .none
  refine mendable_fix (spells_refl hnone) (fun f h items => ?_) items
  refine mendable_look (mendable_continues _) fun more => mendable_ite ?_ (mendable_pure hnone _)
  refine Mendable.mono (mendable_bind (mendable_required hstatement hsteady _) fun next => h _) ?_
  rintro p q ⟨m, ⟨next, _, hnext⟩, more, _, hmore⟩
  exact ⟨next :: more, _, .more hnext hmore⟩

end Blocks

theorem mendable_block : Mendable block (Leads BlockAt) := by
  have hblock : ∀ p q, Comp (Passes (.fixed "\x7b")) (Comp (Leads StatementsAt)
      (Passes (.fixed "\x7d"))) p q → Leads BlockAt p q := by
    rintro p q ⟨_, ⟨left, hleft⟩, _, ⟨items, _, hitems⟩, right, hright⟩
    exact ⟨_, _, .mk hleft hitems hright⟩
  have hnone : ∀ p, Leads StatementsAt p p := leads_refl fun _ => .none
  have hspells : Spells (Leads BlockAt) :=
    ((spells_fixed _).comp ((spells_refl hnone).comp (spells_fixed _))).mono hblock
  refine mendable_fix_of_steady local_advances guarded_blockStep hspells ?_ ()
  intro f hf hsteady hmendable s
  have hstatement := advances_statementOf (hf s).1 (hf s).2
  refine ⟨steady_bind (steady_token _) fun _ =>
    committed_bind (committed_statementsOf hstatement []) fun _ =>
      committed_bind (committed_required _ _) fun _ => committed_pure _, ?_⟩
  refine Mendable.mono (mendable_bind (mendable_token Shape.solid_leftBrace) fun left =>
    mendable_bind (mendable_statementsOf (mendable_statementOf (hmendable s) (hsteady s))
      (steady_statementOf (hsteady s)) []) fun items =>
        mendable_map (mendable_expect Shape.solid_rightBrace) _) hblock

theorem mendable_definitionOf (name : Token) :
    Mendable (definitionOf name) (Comp (Leads SignatureAt) (Leads BlockAt)) :=
  mendable_bind (mendable_required mendable_signature (steady_signatureOf forward_type) _)
    fun _ => mendable_map (mendable_required mendable_block steady_block _) _

theorem mendable_declaration : Mendable declaration (Leads DeclarationAt) := by
  refine Mendable.mono (mendable_bind mendable_identifier fun name =>
    mendable_look (mendable_sees (.literal "(")) fun opens =>
      mendable_ite (mendable_definitionOf name)
        (mendable_fail (mendable_definitionOf name).spells _)) ?_
  rintro p q ⟨_, ⟨name, hname⟩, _, ⟨s, _, hs⟩, body, _, hbody⟩
  exact ⟨_, _, .mk hname hs hbody⟩

theorem mendable_declarations (decls : List FunctionDecl) :
    Mendable (declarations decls) (Leads DeclarationsAt) := by
  have hnone : ∀ p, Leads DeclarationsAt p p := leads_refl fun _ => .none
  refine mendable_fix (spells_refl hnone) (fun f h decls => ?_) decls
  refine mendable_look mendable_hasMore fun more => mendable_ite ?_ (mendable_pure hnone _)
  refine Mendable.mono (mendable_bind (mendable_required mendable_declaration
    (steady_of_appliesTo appliesTo_declaration) _) fun next => h _) ?_
  rintro p q ⟨m, ⟨next, _, hnext⟩, more, _, hmore⟩
  exact ⟨next :: more, _, .more hnext hmore⟩

end Rule

/-- Some text after this one makes it a program. -/
def Program.Completable (text : List Char) : Prop :=
  ∃ added program, Program.parse (String.ofList (text ++ added)) = .ok program

/-- What stands inside the last literal of the text is whole pieces and the beginning of an escape
with four digits, whose first two force a surrogate. Without this escape the literal could be closed
and the text be completed. -/
def Program.EndsInSurrogate (text : List Char) : Prop :=
  ∃ before pieces digits,
    text = before ++ '"' :: (Piece.spellAll pieces ++ surrogateEscape digits) ∧
    digits.length ≤ 4 ∧ ForcesSurrogate digits ∧
    Program.Completable (before ++ Piece.literal pieces)

theorem Program.failed_of_parse {source : String} {problem : Problem}
    (h : Program.parse source = .error problem) :
    ∃ c, Rule.program (.ofString source) = (.failed problem, c) := by
  rw [Program.parse] at h
  split at h
  · cases h
  · next p c hprogram =>
      cases h
      exact ⟨c, hprogram⟩
  · next c hnone =>
      exact absurd (Rule.map_eq_noMatch.mp hnone) (Rule.committed_declarations [] _ c)

theorem Program.parse_mended {mended : List Char}
    (h : ∃ q, Derivation.Leads Derivation.DeclarationsAt ⟨.start, mended⟩ q ∧ Ready q []) :
    ∃ program, Program.parse (String.ofList mended) = .ok program := by
  obtain ⟨q, ⟨decls, spans, hderives⟩, blanks, -, hblanks, hrest⟩ := h
  rw [List.append_nil] at hrest
  have hprogram : Derivation.Derives (String.ofList mended) ⟨decls⟩ spans := by
    refine ⟨q, ?_, hrest ▸ hblanks⟩
    rwa [Position.start, String.toList_ofList]
  exact ⟨⟨decls⟩, Program.parse_of_derives hprogram⟩

/-- A problem is reported no later than where a source goes wrong: what stands before it can be
completed to a program, unless it ends inside of an escape that is bound to name a surrogate. -/
theorem Program.completable_of_error {source : String} {problem : Problem}
    (h : Program.parse source = .error problem) :
    ∃ k : Nat, problem.location.offset = k ∧ k ≤ source.toList.length ∧
      (Program.Completable (source.toList.take k) ∨
        Program.EndsInSurrogate (source.toList.take k)) := by
  obtain ⟨c, hfailed⟩ := Program.failed_of_parse h
  obtain ⟨read, after, mended, hrest, hlocation, hmends, hopen⟩ :=
    (Rule.mendable_declarations []).repairs _ c _ problem (Cursor.at_start source)
      (Rule.map_eq_failed.mp hfailed)
  have hsource : source.toList = read ++ after := hrest
  have htake : source.toList.take read.length = read := by
    rw [hsource, List.take_left]
  refine ⟨read.length, ?_, ?_, ?_⟩
  · rw [hlocation, Location.offset_walk]
    exact Int.zero_add _
  · rw [hsource, List.length_append]
    omega
  rw [htake]
  have hmended := Program.parse_mended (hopen [])
  rw [List.append_nil] at hmended
  cases hmends with
  | @goOn _ added _ => exact .inl ⟨added, hmended⟩
  | @close before added pieces digits hlength hdigits =>
      rw [← List.append_assoc] at hmended
      exact .inr ⟨before, pieces, digits, rfl, hlength, hdigits, added, hmended⟩

/-- The names of a directive are still open where the source ends. -/
theorem Program.completable_of_error_directive : ∃ problem,
    Program.parse "f() \x7b x! a," = .error problem ∧
      ∃ k : Nat, problem.location.offset = k ∧ k ≤ "f() \x7b x! a,".toList.length ∧
        (Program.Completable ("f() \x7b x! a,".toList.take k) ∨
          Program.EndsInSurrogate ("f() \x7b x! a,".toList.take k)) := by
  have herror : (Program.parse "f() \x7b x! a,").isOk = false := by decide +kernel
  cases hparse : Program.parse "f() \x7b x! a," with
  | ok program =>
      rw [hparse] at herror
      cases herror
  | error problem => exact ⟨problem, rfl, Program.completable_of_error hparse⟩

end KestrelCompiler
