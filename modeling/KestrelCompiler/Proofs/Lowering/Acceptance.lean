import KestrelCompiler.Proofs.Lowering.Declaration

/-!
What the builder is given. Instructions and exits go to open blocks only, and operands are brought
to one type before they are combined. So nothing is ever refused, and only a fault of the program
stops its lowering.
-/

namespace KestrelCompiler

open Ir (Value)

namespace Lower

variable {α β : Type} {x : Lower α} {next : α → Lower β} {b b' : Build}

/-- The builder takes all that a step gives it. -/
def Accepted (x : Lower α) (b : Build) : Prop :=
  ∀ r, (x b).1 ≠ .error (.refused r)

theorem accepted_of_ok {a : α} (h : x b = (.ok a, b')) : Accepted x b := by
  intro r hstop
  rw [h] at hstop
  cases hstop

theorem accepted_fail (e : LoweringError) (l : Location) : Accepted (fail e l : Lower α) b := by
  intro r h
  cases h

theorem Accepted.of_eq {y : Lower α} (heq : x b = y b') (h : Accepted y b') : Accepted x b := by
  intro r
  rw [heq]
  exact h r

/-- What is accepted is accepted step by step. -/
theorem accepted_bind_iff : Accepted (x >>= next) b ↔
    Accepted x b ∧ ∀ a b', x b = (.ok a, b') → Accepted (next a) b' := by
  constructor
  · intro h
    refine ⟨fun r hstop => ?_, fun a b' hx => ?_⟩
    · rcases hx : x b with ⟨stop | a, b'⟩
      · rw [hx] at hstop
        cases hstop
        exact h r (congrArg Prod.fst (Step.bind_of_error hx))
      · rw [hx] at hstop
        cases hstop
    · exact .of_eq (Step.bind_of_ok hx).symm h
  · rintro ⟨h, hnext⟩ r
    rcases hx : x b with ⟨stop | a, b'⟩
    · rw [Step.bind_of_error hx]
      intro hstop
      cases hstop
      exact h r (congrArg Prod.fst hx)
    · rw [Step.bind_of_ok hx]
      exact hnext a b' hx r

theorem Accepted.bind (h : Accepted x b)
    (hnext : ∀ a b', x b = (.ok a, b') → Accepted (next a) b') : Accepted (x >>= next) b :=
  accepted_bind_iff.mpr ⟨h, hnext⟩

theorem open_of_accepted (h : Accepted (onOpenBlock x) b) : b.draft.isClosed = false := by
  cases hclosed : b.draft.isClosed with
  | false => rfl
  | true => exact absurd (congrArg Prod.fst (onOpenBlock_of_closed hclosed)) (h .closedBlock)

/-- An instruction is taken where the block is open and its operands have one type, and nowhere
else. -/
theorem accepted_push_iff {operation : Ir.Operation} : Accepted (push operation) b ↔
    operation.isBalanced = true ∧ b.draft.isClosed = false := by
  constructor
  · intro h
    by_cases hbalanced : operation.isBalanced = true
    · rw [push, if_pos hbalanced] at h
      exact ⟨hbalanced, open_of_accepted h⟩
    · rw [push, if_neg hbalanced] at h
      exact absurd rfl (h .unequalTypes)
  · rintro ⟨hbalanced, hopen⟩
    exact accepted_of_ok (push_of_open hbalanced hopen)

/-- An exit is taken where the block is open, and nowhere else. -/
theorem accepted_close_iff {exit : Ir.Exit} :
    Accepted (close exit) b ↔ b.draft.isClosed = false :=
  ⟨open_of_accepted, fun hopen => accepted_of_ok (close_of_open hopen)⟩

theorem accepted_coerce (v : Value) (target : Ir.Ty) (l : Location)
    (hopen : b.draft.isClosed = false) : Accepted (coerce v target l) b := by
  unfold coerce
  split
  · exact accepted_of_ok rfl
  split
  · split
    · exact accepted_push_iff.mpr ⟨rfl, hopen⟩
    split <;> exact accepted_push_iff.mpr ⟨rfl, hopen⟩
  · exact accepted_push_iff.mpr ⟨rfl, hopen⟩
  · exact accepted_fail _ _

theorem accepted_truth (v : Value) (l : Location) (hopen : b.draft.isClosed = false) :
    Accepted (truth v l) b := by
  unfold truth
  split
  · split
    · exact accepted_of_ok rfl
    · exact accepted_push_iff.mpr ⟨rfl, hopen⟩
  · exact accepted_push_iff.mpr ⟨rfl, hopen⟩
  · exact accepted_fail _ _

theorem accepted_bindNames (names : List (Token × Ir.Parameter × Nat)) :
    Accepted (bindNames names) b := by
  induction names generalizing b with
  | nil => exact accepted_of_ok rfl
  | cons entry rest ih =>
      refine (accepted_of_ok rfl : Accepted draft b).bind fun d b₁ _ => ?_
      split
      · exact accepted_fail _ _
      · exact (accepted_of_ok rfl : Accepted (update _) b₁).bind fun _ b₂ _ => ih

end Lower

open Lower

variable {width : Nat} {b : Build}

namespace Expr

theorem accepted_integerWidth (v : Value) (op : Token) (l : Location) :
    Accepted (integerWidth v op l) b := by
  unfold integerWidth
  split
  · exact accepted_of_ok rfl
  · exact accepted_fail _ _

/-- Both operands are coerced to the common type before they are combined. -/
theorem accepted_lower (e : Expr) (hopen : b.draft.isClosed = false) :
    Accepted (e.lower width) b := by
  induction e generalizing b with
  | number token =>
      unfold lower
      split
      · exact accepted_of_ok rfl
      · exact accepted_fail _ _
  | string token =>
      refine (accepted_of_ok rfl : Accepted (addString token.text) b).bind fun index b₁ hrun => ?_
      cases hrun
      exact accepted_push_iff.mpr ⟨rfl, hopen⟩
  | name token =>
      refine (accepted_of_ok rfl : Accepted draft b).bind fun d b₁ _ => ?_
      split
      · exact accepted_of_ok rfl
      · exact accepted_fail _ _
  | binary operation left op right ihl ihr =>
      refine (ihl hopen).bind fun l b₁ hrun => ?_
      obtain ⟨codeL, textsL, -, rfl⟩ := compiles_of_lower hrun
      rw [← Build.isClosed_emit b codeL textsL] at hopen
      refine (ihr hopen).bind fun r b₂ hrun => ?_
      obtain ⟨codeR, textsR, -, rfl⟩ := compiles_of_lower hrun
      rw [← Build.isClosed_emit _ codeR textsR] at hopen
      refine (accepted_integerWidth l op _).bind fun m b₃ hrun => ?_
      obtain ⟨-, rfl⟩ := integerWidth_eq_ok hrun
      refine (accepted_integerWidth r op _).bind fun n b₄ hrun => ?_
      obtain ⟨-, rfl⟩ := integerWidth_eq_ok hrun
      refine (accepted_coerce l _ _ hopen).bind fun l' b₅ hrun => ?_
      obtain ⟨coerceL, hl', rfl⟩ := coerces_of_coerce hrun
      rw [← Build.isClosed_emit _ coerceL []] at hopen
      refine (accepted_coerce r _ _ hopen).bind fun r' b₆ hrun => ?_
      obtain ⟨coerceR, hr', rfl⟩ := coerces_of_coerce hrun
      rw [← Build.isClosed_emit _ coerceR []] at hopen
      have hbalanced := operation.isBalanced_combine (hl'.type_eq.trans hr'.type_eq.symm)
      cases operation <;> exact accepted_push_iff.mpr ⟨hbalanced, hopen⟩

end Expr

theorem accepted_lowerDirective (name : Token) (args : List Token) :
    Accepted (lowerDirective name args) b := by
  unfold lowerDirective
  split
  · exact accepted_fail _ _
  refine (accepted_of_ok rfl : Accepted draft b).bind fun d b₁ _ => ?_
  dsimp only
  split
  · exact accepted_fail _ _
  · exact accepted_bindNames _

theorem accepted_lowerReturn (marker : Token) (value : Expr) (hopen : b.draft.isClosed = false) :
    Accepted (lowerReturn width marker value) b := by
  refine (accepted_of_ok rfl : Accepted draft b).bind fun d b₁ hrun => ?_
  cases hrun
  dsimp only
  split
  · exact accepted_fail _ _
  refine (value.accepted_lower hopen).bind fun v b₁ hrun => ?_
  obtain ⟨code, texts, -, rfl⟩ := Expr.compiles_of_lower hrun
  rw [← Build.isClosed_emit b code texts] at hopen
  refine (accepted_coerce v _ _ hopen).bind fun v' b₂ hrun => ?_
  obtain ⟨coerce, -, rfl⟩ := coerces_of_coerce hrun
  rw [← Build.isClosed_emit _ coerce []] at hopen
  exact accepted_close_iff.mpr hopen

/-- A condition leaves the block that it is computed in open. -/
theorem accepted_condition (condition : Expr) (hopen : b.draft.IsOpen)
    {next : Value → Lower Unit}
    (hnext : ∀ c code texts, (b.draft.append code).IsOpen →
      Accepted (next c) (b.emit code texts)) :
    Accepted (do
      let c ← truth (← condition.lower width) condition.span.start
      next c : Lower Unit) b := by
  refine (condition.accepted_lower hopen.not_closed).bind fun v b₁ hrun => ?_
  obtain ⟨code, texts, -, rfl⟩ := Expr.compiles_of_lower hrun
  have hcode := Draft.isOpen_append hopen code
  refine (accepted_truth v _ hcode.not_closed).bind fun c b₂ hrun => ?_
  obtain ⟨test, -, rfl⟩ := tests_of_truth hrun
  rw [Build.emit_emit]
  exact hnext c _ _ (Draft.isOpen_append hopen _)

mutual

theorem Block.accepted_lower {b : Build} : ∀ block : Block,
    b.draft.current < b.draft.blocks.length → Accepted (block.lower width) b
  | .mk left items _, hinside => accepted_lowerItems left.span.start items hinside

/-- Nothing is lowered behind a statement that has closed the block. -/
theorem accepted_lowerItems {b : Build} (block : Location) : ∀ items : List Stmt,
    b.draft.current < b.draft.blocks.length → Accepted (lowerItems width block items) b
  | [], _ => accepted_of_ok rfl
  | item :: rest, hinside => by
    cases hclosed : b.draft.isClosed with
    | true =>
        obtain ⟨events, hrest⟩ := exists_lowerItems_of_closed width block (item :: rest) hclosed
        exact accepted_of_ok hrest
    | false =>
        have hopen : b.draft.IsOpen := ⟨hinside, hclosed⟩
        refine .of_eq (lowerItems_of_open hclosed) ?_
        refine (Stmt.accepted_lower item hopen).bind fun _ b₁ hrun => ?_
        exact accepted_lowerItems block rest ((lowers_of_lower item hclosed hrun).extends hopen).inside

theorem Stmt.accepted_lower {b : Build} : ∀ stmt : Stmt,
    b.draft.IsOpen → Accepted (stmt.lower width) b
  | .block body, hopen => Block.accepted_lower body hopen.inside
  | .ifThen _ condition yes, hopen => by
    refine accepted_condition condition hopen fun c code texts hcode => ?_
    refine .of_eq (forkThen_eq c _ hcode.not_closed) ?_
    have hfork := (Draft.extends_forkThen hcode c).2
    have hyes : Accepted (yes.lower width) ((b.emit code texts).withDraft (·.forkThen c)) :=
      Block.accepted_lower yes hfork.inside
    exact hyes.bind fun _ _ _ => accepted_of_ok rfl
  | .ifElse _ condition yes no, hopen => by
    refine accepted_condition condition hopen fun c code texts hcode => ?_
    refine .of_eq (forkElse_eq c _ _ hcode.not_closed) ?_
    have hfork := (Draft.extends_forkElse hcode c).2
    have hyes : Accepted (yes.lower width) ((b.emit code texts).withDraft (·.forkElse c)) :=
      Block.accepted_lower yes hfork.inside
    refine hyes.bind fun _ b₁ hrun => ?_
    have hextends := (lowersBlock_of_lower yes hrun).extends hfork.inside
    have hleave := (Draft.extends_leave_yes hcode hextends).2
    refine .of_eq update_bind ?_
    exact (Block.accepted_lower no hleave.inside).bind fun _ _ _ => accepted_of_ok rfl
  | .ret marker value, hopen => accepted_lowerReturn marker value hopen.not_closed
  | .directive name _ args, _ => accepted_lowerDirective name args

end

/-- From its entry block on, the builder takes all of a function. -/
theorem FunctionDecl.accepted_lower (d : FunctionDecl)
    (hinside : b.draft.current < b.draft.blocks.length) : Accepted (d.lower width) b := by
  refine (accepted_of_ok rfl : Accepted (note _) b).bind fun _ b₁ hrun => ?_
  cases hrun
  refine (d.body.accepted_lower (by exact hinside)).bind fun _ b₁ _ => ?_
  refine (accepted_of_ok rfl : Accepted draft b₁).bind fun draft b₂ hrun => ?_
  cases hrun
  split
  · exact accepted_of_ok rfl
  · next hopen =>
      refine (accepted_of_ok rfl : Accepted Lower.draft b₁).bind fun draft b₂ hrun => ?_
      cases hrun
      rw [lowerDefault_eq]
      exact accepted_close_iff.mpr (Bool.eq_false_iff.mpr hopen)

end KestrelCompiler
