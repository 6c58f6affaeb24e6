import KestrelCompiler.Proofs.Grammar.Lexeme

/-!
Commitment. Past its first lexeme a rule matches or fails, so a rule that does not apply leaves the
cursor where it was, up to blanks.
-/

namespace KestrelCompiler.Rule

variable {α β σ : Type}

/-- The rule matches or fails wherever fewer than `n` characters are left. -/
def CommittedBelow (n : Nat) (r : Rule α) : Prop :=
  ∀ c c', c.remaining < n → r c ≠ (.noMatch, c')

def Committed (r : Rule α) : Prop :=
  ∀ c c', r c ≠ (.noMatch, c')

/-- Where the rule does not apply, the cursor stays in front of the same lexeme. -/
def Steady (r : Rule α) : Prop :=
  ∀ c c' p, c.At p → r c = (.noMatch, c') → c'.At p

section Committed

variable {r s : Rule α} {f : α → Rule β}

theorem committed_pure (a : α) : Committed (pure a : Rule α) :=
  fun _ _ h => nomatch h

theorem committed_sees (l : Lexeme) : Committed (sees l) :=
  fun _ _ h => nomatch h

theorem committed_hasMore : Committed hasMore :=
  fun _ _ h => nomatch h

theorem committed_bind (hr : Committed r) (hf : ∀ a, Committed (f a)) : Committed (r >>= f) := by
  intro c c' h
  rcases bind_eq_noMatch.mp h with h | ⟨a, c₁, -, h⟩
  · exact hr c c' h
  · exact hf a c₁ c' h

theorem committed_orElse (hs : Committed s) : Committed (r <|> s) := by
  intro c c' h
  obtain ⟨c₁, -, h⟩ := orElse_eq_noMatch.mp h
  exact hs c₁ c' h

theorem committed_required (r : Rule α) (e : Expectation) : Committed (required r e) :=
  committed_orElse fun _ _ h => nomatch h

theorem committed_optional (r : Rule α) : Committed (optional r) :=
  committed_orElse (committed_pure none)

theorem committed_continues (closing : String) : Committed (continues closing) :=
  committed_bind committed_hasMore fun _ => committed_bind (committed_sees _) fun _ =>
    committed_pure _

variable {step : (σ → Rule α) → σ → Rule α}

/-- A rule that calls itself is committed when each level of it is, as far as the levels below it
reach. -/
theorem committed_fix (h : ∀ n f, (∀ s, CommittedBelow n (f s)) →
    ∀ s, CommittedBelow (n + 1) (step f s)) (s : σ) : Committed (fix step s) := by
  have hunroll : ∀ n s, CommittedBelow n (unroll step n s) := by
    intro n
    induction n with
    | zero => exact fun _ _ _ hlt => absurd hlt (Nat.not_lt_zero _)
    | succ n ih => exact h n _ ih
  exact fun c c' => hunroll (c.remaining + 1) s c c' (Nat.lt_succ_self _)

/-- After a lexeme that was looked for, the rest is only reached with less to read. -/
theorem committedBelow_optional_bind {n : Nat} {k : Option α → Rule β} (hr : Advances r)
    (hsome : ∀ a, CommittedBelow n (k (some a))) (hnone : Committed (k none)) :
    CommittedBelow (n + 1) (optional r >>= k) := by
  intro c c' hlt h
  rcases bind_eq_noMatch.mp h with h | ⟨o, c₁, hmatch, h⟩
  · exact committed_optional r c c' h
  · cases o with
    | none => exact hnone c₁ c' h
    | some a =>
        have := hr c a c₁ (optional_eq_some.mp hmatch)
        exact hsome a c₁ c' (by omega) h

theorem committedBelow_bind {n : Nat} (hr : Committed r) (hforward : Forward r)
    (hf : ∀ a, CommittedBelow n (f a)) : CommittedBelow n (r >>= f) := by
  intro c c' hlt h
  rcases bind_eq_noMatch.mp h with h | ⟨a, c₁, hmatch, h⟩
  · exact hr c c' h
  · have := hforward.remaining_le c
    rw [hmatch] at this
    exact hf a c₁ c' (Nat.lt_of_le_of_lt this hlt) h

theorem committedBelow_bind_advance {n : Nat} (hr : Committed r) (hadvances : Advances r)
    (hf : ∀ a, CommittedBelow n (f a)) : CommittedBelow (n + 1) (r >>= f) := by
  intro c c' hlt h
  rcases bind_eq_noMatch.mp h with h | ⟨a, c₁, hmatch, h⟩
  · exact hr c c' h
  · have := hadvances c a c₁ hmatch
    exact hf a c₁ c' (by omega) h

theorem committedBelow_ite {n : Nat} {b : Bool} {r s : Rule α} (hr : CommittedBelow n r)
    (hs : Committed s) : CommittedBelow n (if b then r else s) := by
  cases b with
  | true => exact hr
  | false => exact fun c c' _ => hs c c'

end Committed

theorem committed_stars (inner : TypeExpr) : Committed (stars inner) := by
  refine committed_fix (fun n f h inner => ?_) inner
  exact committedBelow_optional_bind (advances_token "*") (fun star => h (.pointer inner star))
    (committed_pure inner)

theorem committed_typesOf {type : Rule TypeExpr} (htype : Forward type) (types : List TypeExpr) :
    Committed (typesOf type types) := by
  refine committed_fix (fun n f h types => ?_) types
  refine committedBelow_bind (committed_continues ")") (forward_continues ")") fun more => ?_
  refine committedBelow_ite ?_ (committed_pure types)
  refine committedBelow_bind (committed_required _ _) (forward_required htype _) fun next => ?_
  exact committedBelow_optional_bind (advances_token ",") (fun _ => h (types ++ [next]))
    (committed_pure _)

theorem committed_statementsOf {statement : Rule Stmt} (hstatement : Advances statement)
    (items : List Stmt) : Committed (statementsOf statement items) := by
  refine committed_fix (fun n f h items => ?_) items
  refine committedBelow_bind (committed_continues _) (forward_continues _) fun more => ?_
  refine committedBelow_ite ?_ (committed_pure items)
  exact committedBelow_bind_advance (committed_required _ _) (advances_required hstatement _)
    fun next => h (items ++ [next])

theorem committed_operandsOf {α κ : Type} {build : κ → α → Token → α → α} {operand : Rule α}
    (hoperand : Forward operand) (level : PrecedenceLevel κ) (left : α) :
    Committed (operandsOf build operand level left) := by
  refine committed_fix (fun n f h left => ?_) left
  refine committedBelow_optional_bind (advances_operator _) (fun op => ?_) (committed_pure _)
  exact committedBelow_bind (committed_required _ _) (forward_required hoperand _) fun right => h _

theorem committed_namesAfter (name : String) (names : List Token) :
    Committed (namesAfter name names) := by
  refine committed_fix (fun n f h names => ?_) names
  refine committedBelow_bind (committed_required _ _)
    (forward_required (forward_lexeme Lexeme.consumes_identifier) _) fun next => ?_
  exact committedBelow_optional_bind (advances_token ",") (fun _ => h (names ++ [next]))
    (committed_pure _)

theorem committed_definitionOf (name : Token) : Committed (definitionOf name) :=
  committed_bind (committed_required _ _) fun _ => committed_bind (committed_required _ _) fun _ =>
    committed_pure _

theorem committed_declarations (decls : List FunctionDecl) : Committed (declarations decls) := by
  refine committed_fix (fun n f h decls => ?_) decls
  refine committedBelow_bind committed_hasMore forward_hasMore fun more => ?_
  refine committedBelow_ite ?_ (committed_pure decls)
  exact committedBelow_bind_advance (committed_required _ _)
    (advances_required advances_declaration _) fun next => h (decls ++ [next])

theorem committed_alternativeOf (block : Rule Block) (keyword : Token) (condition : Expr)
    (yes : Block) : Committed (alternativeOf block keyword condition yes) := by
  refine committed_bind (committed_optional _) fun other => ?_
  cases other with
  | none => exact committed_pure _
  | some _ => exact committed_bind (committed_required _ _) fun no => committed_pure _

section Steady

variable {r s : Rule α} {f : α → Rule β}

theorem steady_lexeme (l : Lexeme) : Steady (lexeme l) := by
  intro c c' p hc h
  obtain ⟨-, rfl⟩ := lexeme_eq_noMatch.mp h
  exact hc.skipBlank

theorem steady_bind (hr : Steady r) (hf : ∀ a, Committed (f a)) : Steady (r >>= f) := by
  intro c c' p hc h
  rcases bind_eq_noMatch.mp h with h | ⟨a, c₁, -, h⟩
  · exact hr c c' p hc h
  · exact absurd h (hf a c₁ c')

theorem steady_map (hr : Steady r) (g : α → β) : Steady (g <$> r) :=
  steady_bind hr fun _ => committed_pure _

theorem steady_orElse (hr : Steady r) (hs : Steady s) : Steady (r <|> s) := by
  intro c c' p hc h
  obtain ⟨c₁, hfirst, h⟩ := orElse_eq_noMatch.mp h
  exact hs c₁ c' p (hr c c₁ p hc hfirst) h

end Steady

theorem steady_stringLiteral : Steady stringLiteral := by
  intro c c' p hc h
  simp only [stringLiteral] at h
  split at h
  · split at h <;> cases h
  · cases h
    exact hc.skipBlank

theorem steady_token (text : String) : Steady (token text) :=
  steady_lexeme _

theorem steady_operator {κ : Type} (operators : List (String × κ)) :
    Steady (operator operators) := by
  induction operators with
  | nil =>
      rintro c _ p hc ⟨⟩
      exact hc
  | cons entry rest ih => exact steady_orElse (steady_map (steady_token _) _) ih

theorem steady_signatureOf {type : Rule TypeExpr} (htype : Forward type) :
    Steady (signatureOf type) :=
  steady_bind (steady_token "(") fun _ => committed_bind (committed_typesOf htype []) fun _ =>
    committed_bind (committed_required _ _) fun _ => committed_bind (committed_optional _) fun _ =>
      committed_pure _

theorem steady_type : Steady type := by
  rw [type_eq]
  exact steady_orElse (steady_map (steady_signatureOf forward_type) _)
    (steady_bind (steady_lexeme _) fun name => committed_stars _)

theorem steady_block : Steady block := by
  rw [block_eq]
  exact steady_bind (steady_token _) fun _ =>
    committed_bind (committed_statementsOf advances_statement []) fun _ =>
      committed_bind (committed_required _ _) fun _ => committed_pure _

theorem steady_conditionalOf (block : Rule Block) : Steady (conditionalOf block) :=
  steady_bind (steady_lexeme _) fun _ => committed_bind (committed_required _ _) fun _ =>
    committed_bind (committed_required _ _) fun _ => committed_alternativeOf _ _ _ _

theorem steady_returned : Steady returned :=
  steady_bind (steady_token ":") fun _ => committed_bind (committed_required _ _) fun _ =>
    committed_pure _

end KestrelCompiler.Rule
