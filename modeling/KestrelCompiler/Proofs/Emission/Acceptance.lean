import KestrelCompiler.Proofs.Emission.Repetition
import KestrelCompiler.Proofs.Lowering.Acceptance

/-!
Emissions that are not refused. Each function is filled from its entry block on, after all functions
were declared, so that the builder takes what an emitter gives it, however often it is used.
-/

namespace KestrelCompiler

namespace Emitter

variable {e e' : Emitter}

/-- All functions are known by the time that the first one is filled. -/
theorem mem_names_of_declareAll {declarations : List FunctionDecl}
    (h : e.declareAll declarations = (.ok (), e')) :
    ∀ d ∈ declarations, d.name.text ∈ e'.module.functions.map (·.name) := by
  induction declarations generalizing e with
  | nil => exact List.forall_mem_nil _
  | cons d rest ih =>
      unfold declareAll at h
      cases hd : e.declare d with
      | error stop =>
          rw [hd] at h
          cases h
      | ok e₁ =>
          rw [hd] at h
          have hcontinues := continues_declareAll rest e₁
          dsimp only at h
          rw [h] at hcontinues
          obtain ⟨f, hf, -, rfl⟩ := declare_eq_ok hd
          refine List.forall_mem_cons.mpr ⟨hcontinues.names.subset ?_, ih h⟩
          rw [List.map_append, ← hf.name]
          exact List.mem_append_right _ (List.mem_singleton_self _)

theorem define_not_refused {d : FunctionDecl}
    (hname : d.name.text ∈ e.module.functions.map (·.name)) (r : Refusal) :
    (e.define d (e.module.functions.findIdx (·.name = d.name.text))).1 ≠
      .error (.refused r) := by
  obtain ⟨f, hf, hsame⟩ := List.mem_map.mp hname
  have hlt : e.module.functions.findIdx (·.name = d.name.text) < e.module.functions.length :=
    List.findIdx_lt_length_of_exists ⟨f, hf, decide_eq_true hsame⟩
  unfold define
  rw [List.getElem?_eq_getElem hlt]
  exact d.accepted_lower (Draft.isOpen_start _ _).inside r

theorem defineAll_not_refused {declarations : List FunctionDecl}
    (hnames : ∀ d ∈ declarations, d.name.text ∈ e.module.functions.map (·.name)) (r : Refusal) :
    (e.defineAll declarations).1 ≠ .error (.refused r) := by
  induction declarations generalizing e with
  | nil =>
      intro h
      cases h
  | cons d rest ih =>
      obtain ⟨hname, hrest⟩ := List.forall_mem_cons.mp hnames
      have hd := define_not_refused hname r
      have hkept := (names_define e d (e.module.functions.findIdx (·.name = d.name.text))).2
      unfold defineAll
      rcases hrun : e.define d (e.module.functions.findIdx (·.name = d.name.text)) with
        ⟨stop | ok, e₁⟩
      · rw [hrun] at hd
        simp only [hrun]
        exact hd
      · rw [hrun] at hkept
        simp only [hrun]
        exact ih (hkept ▸ hrest)

/-- No emission, be it the first one or a later one, is refused by the builder. -/
theorem emit_not_refused (e : Emitter) (r : Refusal) : e.emit.1 ≠ .error (.refused r) := by
  have hdeclares : Decides True _ _ := decides_declareAll e.program.declarations e
  have hprogram := (continues_declareAll e.program.declarations e).program
  unfold emit build
  rcases hrun : e.declareAll e.program.declarations with ⟨stop | ok, e₁⟩
  · rw [hrun] at hdeclares
    obtain ⟨f, rfl, -, -⟩ := hdeclares.exists_fault
    intro h
    cases h
  · rw [hrun] at hprogram
    have hdefines := defineAll_not_refused (mem_names_of_declareAll hrun) r
    rw [← hprogram] at hdefines
    dsimp only
    rcases hrun : e₁.defineAll e₁.program.declarations with ⟨stop | ok, e₂⟩
    · intro h
      cases h
      exact hdefines (congrArg Prod.fst hrun)
    · intro h
      cases h

end Emitter

end KestrelCompiler
