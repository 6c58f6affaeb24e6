import KestrelCompiler.Proofs.Faults.Emission
import Mathlib.Logic.Function.Iterate

/-!
Emitters that are used again. Nothing takes a function out of a module, so that all emissions after
the first one stop at the first declaration, if there is one, and leave the emitter as they find it.
-/

namespace KestrelCompiler

namespace Emitter

/-- The emitter after a number of emissions. -/
def afterEmits (e : Emitter) (n : Nat) : Emitter :=
  (fun e => e.emit.2)^[n] e

/-- What an emission gives that comes after `n` others. -/
def outcome (e : Emitter) (n : Nat) : Except LoweringStop String :=
  (e.afterEmits n).emit.1

/-- What never changes, and what is never lost: names of functions are only added. -/
structure Continues (e e' : Emitter) : Prop where
  program : e'.program = e.program
  names : e.module.functions.map (·.name) <+: e'.module.functions.map (·.name)

variable {e e' e'' : Emitter} {d : FunctionDecl} {rest : List FunctionDecl}

namespace Continues

theorem refl (e : Emitter) : e.Continues e :=
  ⟨rfl, List.prefix_rfl⟩

theorem trans (h : e.Continues e') (h' : e'.Continues e'') : e.Continues e'' :=
  ⟨h'.program.trans h.program, h.names.trans h'.names⟩

end Continues

theorem continues_declare (h : e.declare d = .ok e') : e.Continues e' := by
  obtain ⟨f, -, -, rfl⟩ := declare_eq_ok h
  refine ⟨rfl, ?_⟩
  rw [List.map_append]
  exact List.prefix_append _ _

theorem continues_declareAll (declarations : List FunctionDecl) (e : Emitter) :
    e.Continues (e.declareAll declarations).2 := by
  induction declarations generalizing e with
  | nil => exact .refl e
  | cons d rest ih =>
      rw [declareAll]
      cases hd : e.declare d with
      | error f => exact .refl e
      | ok e₁ => exact (continues_declare hd).trans (ih e₁)

theorem continues_defineAll (declarations : List FunctionDecl) (e : Emitter) :
    e.Continues (e.defineAll declarations).2 := by
  obtain ⟨hprogram, hnames⟩ := names_defineAll declarations e
  exact ⟨hprogram, hnames ▸ List.prefix_rfl⟩

/-- What is declared first stays declared, whatever an emission comes to. -/
theorem continues_emit (hdecls : e.program.declarations = d :: rest) (hd : e.declare d = .ok e') :
    e'.Continues e.emit.2 := by
  rw [emit_snd, build, hdecls, declareAll, hd]
  have hrest := continues_declareAll rest e'
  dsimp only
  rcases hrun : e'.declareAll rest with ⟨f | ok, e₁⟩
  · rw [hrun] at hrest
    exact hrest
  · rw [hrun] at hrest
    exact hrest.trans (continues_defineAll _ e₁)

theorem emit_of_no_declarations (hdecls : e.program.declarations = []) :
    e.emit = (.ok e.module.render, e) := by
  rw [emit, build, hdecls, declareAll]
  dsimp only
  rw [hdecls, defineAll]

/-- An emission that stops at the first declaration does nothing. -/
theorem emit_of_declare_error {stop : LoweringStop}
    (hdecls : e.program.declarations = d :: rest) (hd : e.declare d = .error stop) :
    e.emit = (.error stop, e) := by
  rw [emit, build, hdecls, declareAll, hd]

theorem declare_of_mem (hname : d.name.text ∈ e.module.functions.map (·.name)) :
    e.declare d = .error (.fault ⟨.duplicateFunction d.name.text, d.name.span.start⟩) := by
  obtain ⟨f, hf, hsame⟩ := List.mem_map.mp hname
  exact if_pos (List.any_eq_true.mpr ⟨f, hf, by simpa using hsame⟩)

/-- Once the first declaration was declared, each emission stops there. -/
theorem emit_emit_of_declared (hdecls : e.program.declarations = d :: rest)
    (hd : e.declare d = .ok e') :
    e.emit.2.emit =
      (.error (.fault ⟨.duplicateFunction d.name.text, d.name.span.start⟩), e.emit.2) := by
  have hcontinues := continues_emit hdecls hd
  obtain ⟨f, hf, -, rfl⟩ := declare_eq_ok hd
  have hdecls' : e.emit.2.program.declarations = d :: rest := hcontinues.program ▸ hdecls
  refine emit_of_declare_error hdecls' (declare_of_mem ?_)
  refine hcontinues.names.subset ?_
  rw [List.map_append, ← hf.name]
  exact List.mem_append_right _ (List.mem_singleton_self _)

/-- The second emission leaves the emitter as the first one left it. -/
theorem emit_emit_snd (e : Emitter) : e.emit.2.emit.2 = e.emit.2 := by
  cases hdecls : e.program.declarations with
  | nil => rw [emit_of_no_declarations hdecls, emit_of_no_declarations hdecls]
  | cons d rest =>
      cases hd : e.declare d with
      | error f => rw [emit_of_declare_error hdecls hd, emit_of_declare_error hdecls hd]
      | ok e₁ => rw [emit_emit_of_declared hdecls hd]

theorem afterEmits_succ (e : Emitter) (n : Nat) : e.afterEmits (n + 1) = e.emit.2 := by
  rw [afterEmits, Function.iterate_succ_apply]
  exact Function.iterate_fixed (emit_emit_snd e) n

theorem outcome_succ (e : Emitter) (n : Nat) : e.outcome (n + 1) = e.emit.2.emit.1 := by
  rw [outcome, afterEmits_succ]

/-- A fresh emitter knows no names yet. -/
theorem decides_declare_new (program : Program) (width : Nat) (name triple : String)
    (d : FunctionDecl) :
    Decides True ((new program width name triple).declare d) d.signature.HasFault :=
  (decides_declare _ d).congr fun _ => or_iff_right fun h => List.not_mem_nil h.1

/-- All emissions after the first one come to the same, and they leave the module alone. They give
the text of a module without functions again, and the fault of a first declaration with a faulty
signature; any other program has its first function declared twice. -/
theorem emit_again (program : Program) (width : Nat) (name triple : String) :
    let e := new program width name triple
    (∀ n, e.outcome (n + 1) = e.outcome 1 ∧
      (e.afterEmits (n + 1)).module = (e.afterEmits 1).module) ∧
    (program.declarations = [] → ∃ text, e.outcome 0 = .ok text ∧ e.outcome 1 = .ok text) ∧
    ∀ d rest, program.declarations = d :: rest →
      ((∃ f, d.signature.HasFault f) → ∃ f, d.signature.HasFault f ∧
        e.outcome 0 = .error f ∧ e.outcome 1 = .error f) ∧
      ((∀ f, ¬ d.signature.HasFault f) → e.outcome 1 =
        .error (.fault ⟨.duplicateFunction d.name.text, d.name.span.start⟩)) := by
  intro e
  refine ⟨fun n => ⟨?_, ?_⟩, fun hdecls => ?_, fun d rest hdecls => ?_⟩
  · rw [outcome_succ, outcome_succ]
  · rw [afterEmits_succ, afterEmits_succ]
  · have hfirst : e.emit = _ := emit_of_no_declarations hdecls
    refine ⟨e.module.render, congrArg Prod.fst hfirst, ?_⟩
    rw [outcome_succ, hfirst, hfirst]
  · have hdecides : Decides True (e.declare d) d.signature.HasFault :=
      decides_declare_new program width name triple d
    cases hd : e.declare d with
    | error stop =>
        rw [hd] at hdecides
        obtain ⟨f, rfl, hf, -⟩ := hdecides.exists_fault
        have hfirst : e.emit = (.error f, e) := emit_of_declare_error hdecls hd
        refine ⟨fun _ => ⟨f, hf, congrArg Prod.fst hfirst, ?_⟩, fun hnone => ?_⟩
        · rw [outcome_succ, hfirst, hfirst]
        · exact absurd hf (hnone f)
    | ok e₁ =>
        rw [hd] at hdecides
        refine ⟨fun ⟨f, hf⟩ => absurd hf (hdecides f), fun _ => ?_⟩
        rw [outcome_succ, emit_emit_of_declared hdecls hd]

/-- The first function can be lowered, and the second one cannot. -/
def stoppedSource : String :=
  "f() \x7b \x7d g() int \x7b : x \x7d"

theorem emit_again_stopped : ∃ (program : Program) (d : FunctionDecl) (rest : List FunctionDecl)
    (f : LoweringFault), Program.parse stoppedSource = .ok program ∧
    program.declarations = d :: rest ∧ (∀ f, ¬ d.signature.HasFault f) ∧
    (new program 64 "main" unknownTriple).outcome 0 = .error f ∧
    (new program 64 "main" unknownTriple).outcome 1 =
      .error (.fault ⟨.duplicateFunction d.name.text, d.name.span.start⟩) := by
  have hsource : ((Program.parse stoppedSource).toOption.any fun program =>
      !((new program 64 "main" unknownTriple).outcome 0).isOk &&
        program.declarations.head?.any fun d => (d.signature.lower 64).isOk) = true := by
    decide +kernel
  obtain ⟨program, hparse, hprogram⟩ := Program.exists_parse_of_any hsource
  obtain ⟨hstops, hany⟩ := Bool.and_eq_true_iff.mp hprogram
  obtain ⟨d, hd, hok⟩ := (Option.any_eq_true _ _).mp hany
  obtain ⟨rest, hdecls⟩ := List.head?_eq_some_iff.mp hd
  have hfaultless : ∀ f, ¬ d.signature.HasFault f := by
    have hdecides : Decides True (d.signature.lower 64) d.signature.HasFault :=
      Signature.decides_lower
    cases hlower : d.signature.lower 64 with
    | error stop =>
        rw [hlower] at hok
        cases hok
    | ok types =>
        rw [hlower] at hdecides
        exact hdecides
  have hagain := (emit_again program 64 "main" unknownTriple).2.2 d rest hdecls
  have hdecides : Decides _ ((new program 64 "main" unknownTriple).outcome 0) _ :=
    decides_emit program 64 "main" unknownTriple
  cases hfirst : (new program 64 "main" unknownTriple).outcome 0 with
  | ok text =>
      rw [hfirst] at hstops
      cases hstops
  | error stop =>
      rw [hfirst] at hdecides
      obtain ⟨f, rfl, -, -⟩ := hdecides.exists_fault
      exact ⟨program, d, rest, f, hparse, hdecls, hfaultless, hfirst, hagain.2 hfaultless⟩

end Emitter

end KestrelCompiler
