import KestrelCompiler.CommandLine.Dispatch
import KestrelCompiler.Proofs.Report.View
import KestrelCompiler.Proofs.Step

/-!
What commands do on the way to a result. They read and report: the disk, the output and the settings
of the shell stay as they are, and where an action ends the run, it does not tell of success.
-/

namespace KestrelCompiler.CommandLine

open Shell

/-- A later state of a shell with the same disk, the same output and the same settings. -/
structure Shell.Keeps (s s' : Shell) : Prop where
  disk : s'.disk = s.disk
  out : s'.out = s.out
  styled : s'.styled = s.styled
  verbose : s'.verbose = s.verbose
  color : s'.reporter.color = s.reporter.color

namespace Shell.Keeps

theorem refl (s : Shell) : s.Keeps s :=
  ⟨rfl, rfl, rfl, rfl, rfl⟩

theorem trans {s₁ s₂ s₃ : Shell} (h : s₁.Keeps s₂) (h' : s₂.Keeps s₃) : s₁.Keeps s₃ :=
  ⟨h'.disk.trans h.disk, h'.out.trans h.out, h'.styled.trans h.styled,
    h'.verbose.trans h.verbose, h'.color.trans h.color⟩

end Shell.Keeps

/-- The action only reads and reports. It may end the run, but not with success. -/
def Quiet {α : Type} (x : Action α) : Prop :=
  ∀ s, s.Keeps (x s).2 ∧ ∀ stop, (x s).1 = .error stop → stop ≠ .exit 0

variable {α β : Type} {x : Action α} {f : α → Action β} {s s' : Shell} {a : α}

theorem Quiet.keeps (h : Quiet x) {r : Except Stop α} (hx : x s = (r, s')) : s.Keeps s' := by
  have hs := (h s).1
  rwa [hx] at hs

/-- The result of an action that has ended the run without success, and has changed nothing. -/
def Shell.Fails (s : Shell) (r : Except Stop α × Shell) : Prop :=
  ∃ stop s', r = (.error stop, s') ∧ stop ≠ .exit 0 ∧ s.Keeps s'

theorem Shell.Keeps.fails {r : Except Stop α × Shell} (h : s.Keeps s') (hr : s'.Fails r) :
    s.Fails r := by
  obtain ⟨stop, s'', rfl, hstop, hkeeps⟩ := hr
  exact ⟨stop, s'', rfl, hstop, h.trans hkeeps⟩

theorem Shell.Keeps.shown (h : s.Keeps s') (text : String) : s'.shown text = s.shown text := by
  rw [Shell.shown, Shell.shown, h.styled]

/-- What follows a quiet action is reached in a state that keeps the first one, or not at all. -/
theorem Quiet.bind_cases (h : Quiet x) (f : α → Action β) (s : Shell) : s.Fails ((x >>= f) s) ∨
    ∃ a s', x s = (.ok a, s') ∧ s.Keeps s' ∧ (x >>= f) s = f a s' := by
  rcases hrun : x s with ⟨stop | a, s'⟩
  · have hstop := (h s).2 stop
    rw [hrun] at hstop
    exact .inl ⟨stop, s', Step.bind_of_error hrun, hstop rfl, h.keeps hrun⟩
  · exact .inr ⟨a, s', rfl, h.keeps hrun, Step.bind_of_ok hrun⟩

theorem Quiet.fails_bind (h : Quiet x) (hf : ∀ a (s : Shell), s.Fails (f a s)) (s : Shell) :
    s.Fails ((x >>= f) s) := by
  rcases h.bind_cases f s with hfails | ⟨a, s', -, hkeeps, heq⟩
  · exact hfails
  · rw [heq]
    exact hkeeps.fails (hf a s')

theorem fails_exit {code : Nat} (h : code ≠ 0) (s : Shell) : s.Fails ((exit code : Action α) s) :=
  ⟨.exit code, s, rfl, fun heq => h (Stop.exit.inj heq), .refl s⟩

section Steps

theorem quiet_pure (a : α) : Quiet (pure a) :=
  fun s => ⟨.refl s, nofun⟩

theorem quiet_get : Quiet Step.get :=
  fun s => ⟨.refl s, nofun⟩

theorem quiet_update {f : Shell → Shell} (h : ∀ s : Shell, s.Keeps (f s)) : Quiet (Step.update f) :=
  fun s => ⟨h s, nofun⟩

theorem quiet_bind (hx : Quiet x) (hf : ∀ a, Quiet (f a)) : Quiet (x >>= f) := by
  intro s
  rcases hrun : x s with ⟨stop | a, s₁⟩
  · have hstop := (hx s).2 stop
    rw [hrun] at hstop
    rw [Step.bind_of_error hrun]
    refine ⟨hx.keeps hrun, fun stop' h => ?_⟩
    cases h
    exact hstop rfl
  · rw [Step.bind_of_ok hrun]
    exact ⟨(hx.keeps hrun).trans (hf a s₁).1, (hf a s₁).2⟩

theorem quiet_exit {code : Nat} (h : code ≠ 0) : Quiet (exit code : Action α) := by
  refine fun s => ⟨.refl s, fun stop hstop heq => h ?_⟩
  cases hstop
  exact Stop.exit.inj heq

theorem quiet_attempt (r : Except Failure α) : Quiet (attempt r) := by
  cases r with
  | ok a => exact quiet_pure a
  | error failure =>
      refine fun s => ⟨.refl s, fun stop h => ?_⟩
      cases h
      exact Stop.noConfusion

theorem quiet_printError (text : String) : Quiet (printError text) :=
  quiet_update fun _ => ⟨rfl, rfl, rfl, rfl, rfl⟩

theorem quiet_log (source message : String) : Quiet (log source message) := by
  refine quiet_update fun s => ?_
  split
  · exact ⟨rfl, rfl, rfl, rfl, rfl⟩
  · exact .refl s

theorem report_eq (d : Diagnostic) (s : Shell) : report d s =
    (attempt (s.reporter.render s.disk d).1 >>= printError)
      { s with reporter := (s.reporter.render s.disk d).2 } :=
  rfl

theorem quiet_report (d : Diagnostic) : Quiet (report d) := by
  intro s
  rw [report_eq]
  have hprinted := quiet_bind (quiet_attempt (s.reporter.render s.disk d).1) quiet_printError
    { s with reporter := (s.reporter.render s.disk d).2 }
  have hrendered : s.Keeps { s with reporter := (s.reporter.render s.disk d).2 } :=
    ⟨rfl, rfl, rfl, rfl, Reporter.color_render ..⟩
  exact ⟨hrendered.trans hprinted.1, hprinted.2⟩

end Steps

section Reading

variable (path : Path)

theorem quiet_readSource : Quiet (readSource path) :=
  quiet_bind quiet_get fun _ => quiet_bind (quiet_attempt _) fun _ =>
    quiet_bind (quiet_attempt _) fun _ => quiet_pure _

theorem quiet_readProgram : Quiet (readProgram path) := by
  refine quiet_bind (quiet_readSource path) fun source => quiet_bind ?_ fun _ => ?_
  · exact quiet_update fun _ => ⟨rfl, rfl, rfl, rfl, rfl⟩
  · split
    · exact quiet_bind (quiet_log _ _) fun _ => quiet_pure _
    · exact quiet_bind (quiet_log _ _) fun _ => quiet_bind (quiet_report _) fun _ => quiet_pure _

theorem quiet_requireProgram : Quiet (requireProgram path) := by
  refine quiet_bind (quiet_readProgram path) fun result => ?_
  cases result with
  | some program => exact quiet_pure program
  | none => exact quiet_exit Nat.one_ne_zero

theorem quiet_checkAll (files : List String) : Quiet (checkAll files) := by
  induction files with
  | nil => exact quiet_pure _
  | cons file rest ih =>
      exact quiet_bind (quiet_readProgram _) fun _ => quiet_bind ih fun _ => quiet_pure _

theorem quiet_logOrigin (origin : Config.Origin) : Quiet (logOrigin path origin) := by
  cases origin with
  | loaded config package => exact quiet_log _ _
  | defaults => exact quiet_log _ _

theorem quiet_logEvents (events : List Event) : Quiet (logEvents events) := by
  induction events with
  | nil => exact quiet_pure _
  | cons event rest ih =>
      cases event with
      | lowering function => exact quiet_bind (quiet_log _ _) fun _ => ih
      | unreachable block => exact quiet_bind (quiet_log _ _) fun _ => ih

theorem quiet_requireWritable (writable : Bool) : Quiet (requireWritable writable) := by
  cases writable with
  | true => exact quiet_pure _
  | false => exact quiet_attempt (.error .unwritableInteger)

end Reading

section Arguments

theorem quiet_usageError (l : Level) (e : UsageError) : Quiet (usageError l e : Action α) :=
  quiet_bind (quiet_printError _) fun _ => quiet_exit (by decide)

theorem quiet_requireFile (c : Command) (file : String) : Quiet (requireFile c file) := by
  refine quiet_bind quiet_get fun s => ?_
  split
  · exact quiet_attempt _
  · exact quiet_usageError _ _
  · exact quiet_usageError _ _
  · exact quiet_pure _

theorem quiet_requireFiles (c : Command) (files : List String) : Quiet (requireFiles c files) := by
  induction files with
  | nil => exact quiet_pure _
  | cons file rest ih => exact quiet_bind (quiet_requireFile c file) fun _ => ih

theorem quiet_requireOutput (file : String) : Quiet (requireOutput file) := by
  refine quiet_bind quiet_get fun s => ?_
  split
  · exact quiet_attempt _
  · exact quiet_usageError _ _
  · exact quiet_pure _

theorem quiet_requireNone (c : Command) (extra : List String) :
    Quiet (runCommand.requireNone c extra) := by
  cases extra with
  | nil => exact quiet_pure _
  | cons file rest => exact quiet_usageError _ _

end Arguments

end KestrelCompiler.CommandLine
