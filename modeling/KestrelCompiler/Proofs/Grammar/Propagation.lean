import Mathlib.Logic.Relation
import KestrelCompiler.Proofs.Grammar.Refusal

/-!
Propagation of failures. A rule calls other rules from certain cursors: those that it reaches by
reading what stands before. Whatever is called in this way and fails makes the caller fail with the
same problem, through any number of calls.
-/

namespace KestrelCompiler

open Relation

namespace Rule

variable {α β γ : Type}

/-- One round of a loop: there is more, an item is read, and then what goes on after it. -/
def Round (more : Rule Bool) (item : Rule α) (after : Rule β) (c c' : Cursor) : Prop :=
  ∃ c₁ a c₂ b, more c = (.matched true, c₁) ∧ item c₁ = (.matched a, c₂) ∧
    after c₂ = (.matched b, c')

/-- From one operand of an expression to the next one: over an operator of the tighter level, or
over one of the looser level where none of the tighter level stands. -/
def OperandStep (c c' : Cursor) : Prop :=
  ∃ e c₁ op, primary c = (.matched e, c₁) ∧
    (optional (operator PrecedenceLevel.additive.operators) c₁ = (.matched (some op), c') ∨
      ∃ c₂, optional (operator PrecedenceLevel.additive.operators) c₁ = (.matched none, c₂) ∧
        optional (operator PrecedenceLevel.comparison.operators) c₂ = (.matched (some op), c'))

end Rule

open Rule

/-- A rule, run from a cursor, calls another one from a cursor that it has come to. -/
inductive RuleName.Calls : RuleName × Cursor → RuleName × Cursor → Prop
  | declaration {c d d' : Cursor} :
    ReflTransGen (Round hasMore Rule.declaration (pure ())) c d →
    hasMore d = (.matched true, d') → Calls (.program, c) (.declaration, d')
  | definitionSignature {c c₁ c₂ : Cursor} {name : Token} :
    lexeme .identifier c = (.matched name, c₁) → sees (.literal "(") c₁ = (.matched true, c₂) →
    Calls (.declaration, c) (.signature, c₂)
  | definitionBody {c c₁ c₂ c₃ : Cursor} {name : Token} {s : Signature} :
    lexeme .identifier c = (.matched name, c₁) → sees (.literal "(") c₁ = (.matched true, c₂) →
    Rule.signature c₂ = (.matched s, c₃) → Calls (.declaration, c) (.block, c₃)
  | functionType {c : Cursor} : Calls (.type, c) (.signature, c)
  | argument {c c₁ d d' : Cursor} {left : Token} :
    token "(" c = (.matched left, c₁) →
    ReflTransGen (Round (continues ")") Rule.type (token ",")) c₁ d →
    continues ")" d = (.matched true, d') → Calls (.signature, c) (.type, d')
  | result {c c₁ c₂ c₃ : Cursor} {left right : Token} {args : List TypeExpr} :
    token "(" c = (.matched left, c₁) → typesOf Rule.type [] c₁ = (.matched args, c₂) →
    expect ")" c₂ = (.matched right, c₃) → Calls (.signature, c) (.type, c₃)
  | innerBlock {c : Cursor} : Calls (.statement, c) (.block, c)
  | conditional {c c₁ : Cursor} :
    Rule.block c = (.noMatch, c₁) → Calls (.statement, c) (.conditional, c₁)
  | returned {c c₁ c₂ : Cursor} :
    Rule.block c = (.noMatch, c₁) → Rule.conditional c₁ = (.noMatch, c₂) →
    Calls (.statement, c) (.returned, c₂)
  | directive {c c₁ c₂ c₃ : Cursor} :
    Rule.block c = (.noMatch, c₁) → Rule.conditional c₁ = (.noMatch, c₂) →
    Rule.returned c₂ = (.noMatch, c₃) → Calls (.statement, c) (.directive, c₃)
  | condition {c c₁ : Cursor} {keyword : Token} :
    lexeme (.keyword "if") c = (.matched keyword, c₁) →
    Calls (.conditional, c) (.expression, c₁)
  | branch {c c₁ c₂ : Cursor} {keyword : Token} {condition : Expr} :
    lexeme (.keyword "if") c = (.matched keyword, c₁) →
    Rule.expression c₁ = (.matched condition, c₂) → Calls (.conditional, c) (.block, c₂)
  | alternative {c c₁ c₂ c₃ c₄ : Cursor} {keyword other : Token} {condition : Expr} {yes : Block} :
    lexeme (.keyword "if") c = (.matched keyword, c₁) →
    Rule.expression c₁ = (.matched condition, c₂) → Rule.block c₂ = (.matched yes, c₃) →
    lexeme (.keyword "else") c₃ = (.matched other, c₄) → Calls (.conditional, c) (.block, c₄)
  | value {c c₁ : Cursor} {marker : Token} :
    token ":" c = (.matched marker, c₁) → Calls (.returned, c) (.expression, c₁)
  | statement {c c₁ d d' : Cursor} {left : Token} :
    token "\x7b" c = (.matched left, c₁) →
    ReflTransGen (Round (continues "\x7d") Rule.statement (pure ())) c₁ d →
    continues "\x7d" d = (.matched true, d') → Calls (.block, c) (.statement, d')
  | operand {c d : Cursor} : ReflTransGen OperandStep c d → Calls (.expression, c) (.primary, d)
  | stringLiteral {c c₁ : Cursor} :
    lexeme .numeral c = (.noMatch, c₁) → Calls (.primary, c) (.stringLiteral, c₁)

namespace Rule

variable {α β γ : Type} {c c' d d' : Cursor} {p : Problem} {r s : Rule α} {f : α → Rule β}

/-- The rule fails with a certain problem. -/
def Fails (r : Rule α) (c : Cursor) (p : Problem) : Prop :=
  ∃ c', r c = (.failed p, c')

theorem fails_map_iff {g : α → β} : Fails (g <$> r) c p ↔ Fails r c p := by
  simp only [Fails, map_eq_failed]

theorem Fails.map (h : Fails r c p) (g : α → β) : Fails (g <$> r) c p :=
  fails_map_iff.mpr h

theorem Fails.bind (h : Fails r c p) (f : α → Rule β) : Fails (r >>= f) c p := by
  obtain ⟨c', h⟩ := h
  exact ⟨c', bind_eq_failed.mpr (.inl h)⟩

theorem fails_after {a : α} (hr : r c = (.matched a, c')) (h : Fails (f a) c' p) :
    Fails (r >>= f) c p := by
  obtain ⟨c'', h⟩ := h
  exact ⟨c'', bind_eq_failed.mpr (.inr ⟨a, c', hr, h⟩)⟩

theorem Fails.orElse (h : Fails r c p) (s : Rule α) : Fails (r <|> s) c p := by
  obtain ⟨c', h⟩ := h
  exact ⟨c', orElse_eq_failed.mpr (.inl h)⟩

theorem fails_otherwise (hr : r c = (.noMatch, c')) (h : Fails s c' p) : Fails (r <|> s) c p := by
  obtain ⟨c'', h⟩ := h
  exact ⟨c'', orElse_eq_failed.mpr (.inr ⟨c', hr, h⟩)⟩

theorem Fails.required (h : Fails r c p) (e : Expectation) : Fails (required r e) c p :=
  h.orElse (fail e)

theorem Fails.optional (h : Fails r c p) : Fails (optional r) c p := by
  obtain ⟨c', h⟩ := h
  exact ⟨c', optional_eq_failed.mpr h⟩

theorem required_of_matched {a : α} {e : Expectation} (h : r c = (.matched a, c')) :
    required r e c = (.matched a, c') :=
  required_eq_matched.mpr h

theorem fails_declarations
    (h : ReflTransGen (Round hasMore declaration (pure ())) c d)
    (hmore : hasMore d = (.matched true, d')) (hfails : Fails declaration d' p)
    (decls : List FunctionDecl) : Fails (declarations decls) c p := by
  induction h using ReflTransGen.head_induction_on generalizing decls with
  | refl =>
      rw [declarations_eq]
      exact fails_after hmore ((hfails.required _).bind _)
  | head hround _ ih =>
      obtain ⟨c₁, next, c₂, _, hmore', hnext, hafter⟩ := hround
      cases hafter
      rw [declarations_eq]
      exact fails_after hmore' (fails_after (required_of_matched hnext) (ih _))

theorem fails_typesOf (h : ReflTransGen (Round (continues ")") type (token ",")) c d)
    (hmore : continues ")" d = (.matched true, d')) (hfails : Fails type d' p)
    (types : List TypeExpr) : Fails (typesOf type types) c p := by
  induction h using ReflTransGen.head_induction_on generalizing types with
  | refl =>
      rw [typesOf_eq forward_type]
      exact fails_after hmore ((hfails.required _).bind _)
  | head hround _ ih =>
      obtain ⟨c₁, next, c₂, comma, hmore', hnext, hcomma⟩ := hround
      rw [typesOf_eq forward_type]
      refine fails_after hmore' (fails_after (required_of_matched hnext) ?_)
      exact fails_after (optional_eq_some.mpr hcomma) (ih _)

theorem fails_statementsOf
    (h : ReflTransGen (Round (continues "\x7d") statement (pure ())) c d)
    (hmore : continues "\x7d" d = (.matched true, d')) (hfails : Fails statement d' p)
    (items : List Stmt) : Fails (statementsOf statement items) c p := by
  induction h using ReflTransGen.head_induction_on generalizing items with
  | refl =>
      rw [statementsOf_eq forward_statement advances_statement]
      exact fails_after hmore ((hfails.required _).bind _)
  | head hround _ ih =>
      obtain ⟨c₁, next, c₂, _, hmore', hnext, hafter⟩ := hround
      cases hafter
      rw [statementsOf_eq forward_statement advances_statement]
      exact fails_after hmore' (fails_after (required_of_matched hnext) (ih _))

section Operands

/-- A sum, and what the additive operators add to its first operand. -/
def sum : Rule Expr :=
  climb .binary primary [.additive]

theorem forward_sum : Forward sum :=
  forward_climb forward_primary _

/-- What is left to read of an expression after an operand. The operand completes a sum in one way,
and the sum completes the expression in another. -/
def expressionAfter (inSum inWhole : Expr → Expr) (operand : Expr) : Rule Expr :=
  operandsOf .binary primary .additive (inSum operand) >>= fun whole =>
    operandsOf .binary sum .comparison (inWhole whole)

theorem fails_bind_assoc {g : β → Rule γ} :
    Fails ((r >>= f) >>= g) c p ↔ Fails (r >>= fun a => f a >>= g) c p := by
  have hassoc : ((r >>= f) >>= g) c = (r >>= fun a => f a >>= g) c := by
    change Rule.bind (Rule.bind r f) g c = Rule.bind r (fun a => Rule.bind (f a) g) c
    simp only [Rule.bind]
    rcases r c with ⟨a | - | p, c₁⟩ <;> rfl
  rw [Fails, Fails, hassoc]

theorem Fails.required_bind (h : Fails (r >>= f) c p) (e : Expectation) :
    Fails (Rule.required r e >>= f) c p := by
  obtain ⟨c', h⟩ := h
  rcases bind_eq_failed.mp h with h | ⟨a, c₁, hr, h⟩
  · exact Fails.bind (Fails.required ⟨c', h⟩ e) f
  · exact fails_after (required_of_matched hr) ⟨c', h⟩

/-- An operand that fails wherever an expression has come to makes the whole of it fail. -/
theorem fails_expressionAfter (h : ReflTransGen OperandStep c d) (hfails : Fails primary d p)
    (inSum inWhole : Expr → Expr) : Fails (primary >>= expressionAfter inSum inWhole) c p := by
  induction h using ReflTransGen.head_induction_on generalizing inSum inWhole with
  | refl => exact hfails.bind _
  | @head c d hstep _ ih =>
      obtain ⟨e, c₁, op, he, hadditive | ⟨c₂, hnone, hcomparison⟩⟩ := hstep
      · refine fails_after he ?_
        rw [expressionAfter, operandsOf_eq forward_primary]
        refine fails_bind_assoc.mpr (fails_after hadditive (fails_bind_assoc.mpr ?_))
        exact (ih (.binary op.2 (inSum e) op.1) inWhole).required_bind _
      · have hsum : operandsOf .binary primary .additive (inSum e) c₁ =
            (.matched (inSum e), c₂) := by
          rw [operandsOf_eq forward_primary]
          exact bind_of_matched hnone
        refine fails_after he (fails_after hsum ?_)
        rw [operandsOf_eq forward_sum]
        refine fails_after hcomparison (Fails.required_bind (fails_bind_assoc.mpr ?_) _)
        exact ih id (.binary op.2 (inWhole (inSum e)) op.1)

theorem fails_expression (h : ReflTransGen OperandStep c d) (hfails : Fails primary d p) :
    Fails expression c p :=
  fails_bind_assoc.mpr (fails_expressionAfter h hfails id id)

end Operands

/-- A call that fails makes the caller fail with the same problem. -/
theorem fails_of_calls {caller callee : RuleName × Cursor} (h : RuleName.Calls caller callee)
    (hfails : Fails callee.1.rule callee.2 p) : Fails caller.1.rule caller.2 p := by
  have hcallee := fun {β : Type} {r : Rule β} {g : β → Phrase} {d : Cursor}
    (hfails : Fails (g <$> r) d p) => fails_map_iff.mp hfails
  cases h with
  | declaration hrounds hmore =>
      exact ((fails_declarations hrounds hmore (hcallee hfails) []).map _).map _
  | definitionSignature hname hopens =>
      exact (fails_after hname (fails_after hopens (((hcallee hfails).required _).bind _))).map _
  | definitionBody hname hopens hs =>
      refine (fails_after hname (fails_after hopens ?_)).map _
      exact fails_after (required_of_matched hs) (((hcallee hfails).required _).bind _)
  | functionType =>
      rw [RuleName.rule, type_eq]
      exact (((hcallee hfails).map _).orElse _).map _
  | argument hleft hrounds hmore =>
      refine (fails_after hleft ?_).map _
      exact (fails_typesOf hrounds hmore (hcallee hfails) []).bind _
  | result hleft hargs hright =>
      refine (fails_after hleft (fails_after hargs (fails_after hright ?_))).map _
      exact (hcallee hfails).optional.bind _
  | innerBlock => exact (((hcallee hfails).map _).orElse _).map _
  | conditional hblock =>
      exact (fails_otherwise (map_eq_noMatch.mpr hblock) ((hcallee hfails).orElse _)).map _
  | returned hblock hconditional =>
      refine (fails_otherwise (map_eq_noMatch.mpr hblock) ?_).map _
      exact fails_otherwise hconditional ((hcallee hfails).orElse _)
  | directive hblock hconditional hreturned =>
      refine (fails_otherwise (map_eq_noMatch.mpr hblock) ?_).map _
      exact fails_otherwise hconditional (fails_otherwise hreturned (hcallee hfails))
  | condition hkeyword =>
      exact (fails_after hkeyword (((hcallee hfails).required _).bind _)).map _
  | branch hkeyword hcondition =>
      refine (fails_after hkeyword (fails_after (required_of_matched hcondition) ?_)).map _
      exact ((hcallee hfails).required _).bind _
  | alternative hkeyword hcondition hyes helse =>
      refine (fails_after hkeyword (fails_after (required_of_matched hcondition) ?_)).map _
      refine fails_after (required_of_matched hyes) (fails_after (optional_eq_some.mpr helse) ?_)
      exact ((hcallee hfails).required _).bind _
  | value hmarker => exact (fails_after hmarker (((hcallee hfails).required _).bind _)).map _
  | statement hleft hrounds hmore =>
      rw [RuleName.rule, block_eq]
      refine (fails_after hleft ?_).map _
      exact (fails_statementsOf hrounds hmore (hcallee hfails) []).bind _
  | operand hsteps => exact (fails_expression hsteps (hcallee hfails)).map _
  | stringLiteral hnumber =>
      refine (fails_otherwise (map_eq_noMatch.mpr hnumber) ?_).map _
      exact ((hcallee hfails).map _).orElse _

theorem fails_of_transGen {caller callee : RuleName × Cursor}
    (h : TransGen RuleName.Calls caller callee) (hfails : Fails callee.1.rule callee.2 p) :
    Fails caller.1.rule caller.2 p := by
  induction h using TransGen.head_induction_on with
  | single hcall => exact fails_of_calls hcall hfails
  | head hcall _ ih => exact fails_of_calls hcall ih

end Rule

/-- A rule that does not apply leaves the cursor behind the blanks it stood in front of. Unless the
cursor is in front of the source, where nothing can be read, a rule applies exactly where its first
lexeme stands. A rule that fails makes every rule fail with the same problem that has called it,
itself or through others. -/
theorem RuleName.outcome_of_rule (r : RuleName) (c : Cursor) :
    (∀ c', r.rule c = (.noMatch, c') → c' = c.skipBlank) ∧
    (0 ≤ c.location.offset → ((∃ c', r.rule c = (.noMatch, c')) ↔ ¬ r.Opens c.skipBlank.rest)) ∧
    ∀ s d problem, TransGen RuleName.Calls (r, c) (s, d) →
      (∃ d', s.rule d = (.failed problem, d')) → ∃ c', r.rule c = (.failed problem, c') :=
  ⟨(appliesTo_rule r).still c, (appliesTo_rule r).refuses_iff c,
    fun _ _ _ hcalls hfails => fails_of_transGen hcalls hfails⟩

/-- A literal that is not closed makes the return fail whose value it is. -/
theorem RuleName.outcome_of_rule_unclosed :
    ∃ problem c', RuleName.returned.rule (.ofString ":\"a") = (.failed problem, c') := by
  let c : Cursor := .ofString ":\"a"
  let d : Cursor := c.moveTo (c.location.walk [':'])
  have hvalue : Calls (.returned, c) (.expression, d) := .value rfl
  have hnumber : lexeme .numeral d = (.noMatch, d) := rfl
  have hcalls : TransGen Calls (.returned, c) (.stringLiteral, d) :=
    ((TransGen.single hvalue).tail (.operand .refl)).tail (.stringLiteral hnumber)
  have hfails : ∃ d', RuleName.stringLiteral.rule d =
      (.failed (StringFault.unclosed.problem (c.location.walk [':', '"', 'a'])), d') := ⟨_, rfl⟩
  exact ⟨_, (outcome_of_rule .returned c).2.2 _ d _ hcalls hfails⟩

end KestrelCompiler
