import KestrelCompiler.Proofs.Grammar.Propagation
import KestrelCompiler.Proofs.Precedence.Climb
import KestrelCompiler.Proofs.Termination.Descent

/-!
Expressions of any table of operators as a recursion: one level reads its operands at the next
tighter one, from where it stands itself and behind each of its operators, and the tightest level
reads them with the operand rule. Each such call has one level less.
-/

namespace KestrelCompiler

open Relation

namespace Rule

variable {α κ : Type}

/-- What the levels do, given what they do with one level less. -/
def climbWith (build : κ → α → Token → α → α) (operand : Rule α)
    (again : List (PrecedenceLevel κ) → Rule α) : List (PrecedenceLevel κ) → Rule α
  | [] => operand
  | level :: tighter => do
    let first ← again tighter
    operandsOf build (again tighter) level first

/-- From behind an operand to behind the next one of the same level. -/
def OperatorRound (level : PrecedenceLevel κ) (operand : Rule α) (c d : Cursor) : Prop :=
  ∃ op c₁ a, operator level.operators c = (.matched op, c₁) ∧ operand c₁ = (.matched a, d)

/-- Some levels, run from a cursor, read an operand at the tighter ones: the first one at this
cursor, the others behind the operators of the loosest level. -/
inductive LevelCalls (build : κ → α → Token → α → α) (operand : Rule α) :
    List (PrecedenceLevel κ) × Cursor → List (PrecedenceLevel κ) × Cursor → Prop
  | first {level : PrecedenceLevel κ} {tighter : List (PrecedenceLevel κ)} {c : Cursor} :
    LevelCalls build operand (level :: tighter, c) (tighter, c)
  | next {level : PrecedenceLevel κ} {tighter : List (PrecedenceLevel κ)} {c c₁ d d' : Cursor}
    {a : α} {op : Token × κ} :
    climb build operand tighter c = (.matched a, c₁) →
    ReflTransGen (OperatorRound level (climb build operand tighter)) c₁ d →
    operator level.operators d = (.matched op, d') →
    LevelCalls build operand (level :: tighter, c) (tighter, d')

variable {build : κ → α → Token → α → α} {operand operand' : Rule α}
  {level : PrecedenceLevel κ} {levels tighter rest : List (PrecedenceLevel κ)} {c d : Cursor}

theorem OperatorRound.precedes (h : OperatorRound level operand c d) (hoperand : Forward operand) :
    c.Precedes d := by
  obtain ⟨op, c₁, a, hop, ha⟩ := h
  have hpast := (advances_operator _).precedes (forward_operator _) hop
  exact hpast.trans_leadsTo (hoperand.leadsTo ha)

/-- The first operand is read where its level stands, with one level less; the others further on. -/
theorem LevelCalls.descends (hoperand : Forward operand)
    (h : LevelCalls build operand (levels, c) (rest, d)) :
    c.Precedes d ∨ d = c ∧ rest.length < levels.length := by
  cases h with
  | first => exact .inr ⟨rfl, Nat.lt_succ_self _⟩
  | next hfirst hrounds hop =>
      have htighter : Forward (climb build operand rest) := forward_climb hoperand rest
      have hrounds' := Cursor.onward_of_reflTransGen
        (fun _ _ hround => OperatorRound.precedes hround htighter) hrounds
      have hpast := (advances_operator _).precedes (forward_operator _) hop
      exact .inl (((htighter.leadsTo hfirst).trans hrounds'.leadsTo).trans_precedes hpast)

theorem LevelCalls.tighter_eq (h : LevelCalls build operand (level :: tighter, c) (rest, d)) :
    rest = tighter := by
  cases h <;> rfl

/-- What the levels do depends on what is done with one level less only where they come to it. -/
theorem climbWith_agree {again : List (PrecedenceLevel κ) → Rule α}
    (h : ∀ rest d, LevelCalls build operand (levels, c) (rest, d) →
      climb build operand rest d = again rest d) :
    climb build operand levels c = climbWith build operand again levels c := by
  cases levels with
  | nil => rfl
  | cons level tighter =>
      refine bind_agree (h tighter c .first) fun first c₁ hfirst => ?_
      let P : α → Cursor → Prop := fun _ d =>
        ReflTransGen (OperatorRound level (climb build operand tighter)) c₁ d
      refine fix_agree (P := P) (fun f f' hf left d hd => ?_) .refl
      refine bind_agree rfl fun op d' hop => ?_
      cases op with
      | none => rfl
      | some op =>
          have hop := optional_eq_some.mp hop
          refine bind_agree (required_agree (h tighter d' (.next hfirst hd hop)) _) ?_
          intro right d'' hright
          exact hf _ d'' (hd.tail ⟨op, d', right, hop, required_eq_matched.mp hright⟩)

/-- What the levels do depends on the operand rule only where they read an operand. -/
theorem climb_agree
    (h : ∀ d, ReflTransGen (LevelCalls build operand) (levels, c) ([], d) →
      operand d = operand' d) :
    climb build operand levels c = climb build operand' levels c := by
  induction levels generalizing c with
  | nil => exact h c .refl
  | cons level tighter ih =>
      change _ = climbWith build operand (climb build operand') (level :: tighter) c
      refine climbWith_agree fun rest d hcall => ?_
      have hrest : ∀ e, ReflTransGen (LevelCalls build operand) (rest, d) ([], e) →
          operand e = operand' e := fun e he => h e (.head hcall he)
      cases hcall with
      | first => exact ih hrest
      | next => exact ih hrest

/-- The levels are the one solution of their equations. -/
theorem climb_eq_iff (again : List (PrecedenceLevel κ) → Rule α) :
    (∀ levels, again levels = climbWith build operand again levels) ↔
      again = climb build operand := by
  constructor
  · intro h
    funext levels
    induction levels with
    | nil => exact h []
    | cons level tighter ih =>
        rw [h, climbWith, ih]
        rfl
  · rintro rfl levels
    cases levels with
    | nil => rfl
    | cons level tighter => rfl

section Expression

/-- The operands of a level follow one another if each operator behind one leads to the next. -/
theorem LevelCalls.reaches {S : Cursor → Cursor → Prop}
    (hstep : ∀ c a c' op d, climb build operand tighter c = (.matched a, c') →
      operator level.operators c' = (.matched op, d) → ReflTransGen S c d)
    (h : LevelCalls build operand (level :: tighter, c) (tighter, d)) : ReflTransGen S c d := by
  cases h with
  | first => exact .refl
  | @next _ _ _ _ _ _ a op hfirst hrounds hop =>
      induction hrounds using ReflTransGen.head_induction_on generalizing c a with
      | refl => exact hstep _ _ _ _ _ hfirst hop
      | head hround _ ih =>
          obtain ⟨op', c₂, a', hop', ha'⟩ := hround
          exact (hstep _ _ _ _ _ hfirst hop').trans (ih ha')

/-- A sum ends behind its last operand, where no additive operator stands. -/
theorem exists_last_of_sum {v : Expr} (h : sum c = (.matched v, d)) :
    ∃ last e c', ReflTransGen OperandStep c last ∧ primary last = (.matched e, c') ∧
      optional (operator PrecedenceLevel.additive.operators) c' = (.matched none, d) := by
  obtain ⟨first, c₁, hfirst, hmore⟩ := bind_eq_matched.mp h
  have hunroll : ∀ n left last e c', ReflTransGen OperandStep c last →
      primary last = (.matched e, c') →
      unroll (operandsStep .binary primary PrecedenceLevel.additive) n left c' = (.matched v, d) →
      ∃ last e c', ReflTransGen OperandStep c last ∧ primary last = (.matched e, c') ∧
        optional (operator PrecedenceLevel.additive.operators) c' = (.matched none, d) := by
    intro n
    induction n with
    | zero => exact fun _ _ _ _ _ _ hrun => nomatch hrun
    | succ n ih =>
        intro left last e c' hsteps he hrun
        obtain ⟨op, c₂, hop, hrun⟩ := bind_eq_matched.mp hrun
        cases op with
        | none =>
            cases hrun
            exact ⟨last, e, c', hsteps, he, hop⟩
        | some op =>
            obtain ⟨right, c₃, hright, hrun⟩ := bind_eq_matched.mp hrun
            have hnext : OperandStep last c₂ := ⟨e, c', op, he, .inl hop⟩
            exact ih _ c₂ right c₃ (hsteps.tail hnext) (required_eq_matched.mp hright) hrun
  exact hunroll (c₁.remaining + 1) first c first c₁ .refl hfirst hmore

/-- The operands of an expression are read where its operators lead to. -/
theorem operandSteps_of_levelCalls
    (h : ReflTransGen (LevelCalls Expr.binary primary) (PrecedenceLevel.all, c) ([], d)) :
    ReflTransGen OperandStep c d := by
  have hsum : ∀ c e c' op d, sum c = (.matched e, c') →
      operator PrecedenceLevel.comparison.operators c' = (.matched op, d) →
      ReflTransGen OperandStep c d := by
    intro c e c' op d he hop
    obtain ⟨last, e, c₁, hsteps, he, hnone⟩ := exists_last_of_sum he
    exact hsteps.tail ⟨e, c₁, op, he, .inr ⟨c', hnone, optional_eq_some.mpr hop⟩⟩
  have hprimary : ∀ c e c' op d, primary c = (.matched e, c') →
      operator PrecedenceLevel.additive.operators c' = (.matched op, d) →
      ReflTransGen OperandStep c d :=
    fun c e c' op d he hop => .single ⟨e, c', op, he, .inl (optional_eq_some.mpr hop)⟩
  -- One call goes down to the sums, the next one to the operands, which call no level any more.
  rcases h.cases_head with hnil | ⟨⟨rest, m⟩, hcomparison, h⟩
  · cases hnil
  obtain rfl := hcomparison.tighter_eq
  rcases h.cases_head with hnil | ⟨⟨rest, m'⟩, hadditive, h⟩
  · cases hnil
  obtain rfl := hadditive.tighter_eq
  rcases h.cases_head with hend | ⟨_, hnone, -⟩
  · cases hend
    exact (hcomparison.reaches hsum).trans (hadditive.reaches hprimary)
  · cases hnone

end Expression

end Rule

end KestrelCompiler
