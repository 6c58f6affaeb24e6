import KestrelCompiler.Proofs.CommandLine.Quiet

/-!
What the arguments ask for. Options of the program come first, then the name of a command, then
the options of the command and its files in any order. A run with such arguments is a run of the
command.
-/

namespace KestrelCompiler.CommandLine

open Shell

/-- Help or the version is asked for. -/
def Given.IsInquiry (g : Given) : Prop :=
  g.option = .help ∨ g.option = .version

/-- The arguments ask for a command on some files. No option asks for help or the version, and
`output` is the last one that is given. -/
inductive Requests : List String → Command → List String → Option String → Prop
  | mk {args rest files : List String} {c : Command} {general special : List Given} :
    readOptions Level.program.forms false args = .ok (general, c.name :: rest) →
    (∀ g ∈ general, ¬ g.IsInquiry) →
    readOptions (Level.command c).forms true rest = .ok (special, files) →
    (∀ g ∈ special, ¬ g.IsInquiry) →
    Requests args c files (outputOption special)

section Levels

variable {l : Level} {mixed : Bool} {args others : List String} {given : List Given}

theorem answerInquiry_eq (h : ∀ g ∈ given, ¬ g.IsInquiry) (l : Level) :
    answerInquiry l given = pure () := by
  have hnone : (given.find? fun g => g.option = .help || g.option = .version) = none := by
    simpa [Given.IsInquiry] using h
  rw [answerInquiry, hnone]

theorem readLevel_eq (h : readOptions l.forms mixed args = .ok (given, others))
    (hgiven : ∀ g ∈ given, ¬ g.IsInquiry) : readLevel l mixed args = pure (given, others) := by
  rw [readLevel, h]
  dsimp only
  rw [answerInquiry_eq hgiven]
  rfl

end Levels

section Plain

variable {forms : List OptionForm} {arg : String} {files : List String}

theorem ne_of_not_isOption (h : isOption arg = false) : arg ≠ "--" := by
  rintro rfl
  cases h

theorem readOptions_of_not_isOption (h : isOption arg = false) (rest : List String) :
    readOptions forms false (arg :: rest) = .ok ([], arg :: rest) := by
  rw [readOptions, if_neg (ne_of_not_isOption h), h]
  rfl

theorem readOptions_files (h : ∀ file ∈ files, isOption file = false) :
    readOptions forms true files = .ok ([], files) := by
  induction files with
  | nil => rfl
  | cons file rest ih =>
      obtain ⟨hfile, hrest⟩ := List.forall_mem_cons.mp h
      rw [readOptions, if_neg (ne_of_not_isOption hfile), hfile, ih hrest]
      rfl

/-- The name of a command followed by files asks for the command on the files. -/
theorem requests_of_files (c : Command) (h : ∀ file ∈ files, isOption file = false) :
    Requests (c.name :: files) c files none :=
  .mk (readOptions_of_not_isOption (by cases c <;> decide) files) nofun (readOptions_files h) nofun

end Plain

/-- The state in which a command begins. -/
def Shell.configured (s : Shell) (general : List Given) : Shell :=
  { s with
    verbose := general.any (·.option = .verbose)
    reporter := { color := !general.any (·.option = .noColor) } }

/-- A command is found by its name. -/
theorem find?_name (c : Command) : Command.all.find? (·.name = c.name) = some c := by
  cases c <;> decide

theorem runProgram_eq {args rest : List String} {c : Command} {general : List Given}
    (h : readOptions Level.program.forms false args = .ok (general, c.name :: rest))
    (hgeneral : ∀ g ∈ general, ¬ g.IsInquiry) (s : Shell) :
    runProgram args s = runCommand c rest (s.configured general) := by
  have hargs : args.isEmpty = false := by
    cases args with
    | nil => cases h
    | cons arg args => rfl
  unfold runProgram
  rw [hargs, readLevel_eq h hgeneral]
  rw [if_neg Bool.false_ne_true]
  simp only [pure, Step.pure, bind, Step.bind, find?_name]
  rfl

/-- A run that asks for a command runs it. -/
theorem Requests.exists_rest {args files : List String} {c : Command} {output : Option String}
    (h : Requests args c files output) : ∃ general rest, ∀ s : Shell,
      runProgram args s = runCommand c rest (s.configured general) := by
  obtain ⟨hgeneral, hasked, -, -⟩ := h
  exact ⟨_, _, runProgram_eq hgeneral hasked⟩

/-- The check of an output file before a command begins. -/
def checkOutput (output : Option String) : Action Unit :=
  output.elim (pure ()) requireOutput

theorem quiet_checkOutput (output : Option String) : Quiet (checkOutput output) := by
  cases output with
  | none => exact quiet_pure _
  | some file => exact quiet_requireOutput file

theorem requireFile_eq {c : Command} {file : String} {bytes : ByteArray} {s : Shell}
    (h : s.disk.findText file = .ok (.file bytes)) : requireFile c file s = (.ok (), s) := by
  rw [requireFile, Step.get_bind, h]
  rfl

/-- The work of a command on its files. -/
def perform (output : Option String) : Command → List String → Action Unit
  | c, [] => usageError (.command c) (.missingArgument c.files)
  | .check, file :: rest => do
    requireFiles .check (file :: rest)
    check (file :: rest)
  | .view, file :: extra => do
    requireFile .view file
    runCommand.requireNone .view extra
    view file
  | .build, file :: extra => do
    requireFile .build file
    runCommand.requireNone .build extra
    build file output

theorem runCommand_eq (c : Command) (rest : List String) : runCommand c rest =
    readLevel (.command c) true rest >>= fun read =>
      checkOutput (outputOption read.1) >>= fun _ => perform (outputOption read.1) c read.2 := by
  refine congrArg _ (funext fun read => ?_)
  obtain ⟨given, files⟩ := read
  dsimp only
  cases outputOption given <;> cases c <;> cases files <;> rfl

theorem runCommand_of_readOptions {c : Command} {rest files : List String} {special : List Given}
    (h : readOptions (Level.command c).forms true rest = .ok (special, files))
    (hspecial : ∀ g ∈ special, ¬ g.IsInquiry) : runCommand c rest =
      checkOutput (outputOption special) >>= fun _ => perform (outputOption special) c files := by
  rw [runCommand_eq, readLevel_eq h hspecial, Step.pure_bind]

section Runs

variable {d : Disk} {styled : Bool} {args : List String} {s : Shell}

/-- The state in which a run begins. -/
def Shell.initial (d : Disk) (styled : Bool) : Shell :=
  { disk := d, styled, verbose := false, reporter := { color := true } }

theorem run_shell (d : Disk) (styled : Bool) (args : List String) :
    (run d styled args).shell = (runProgram args (.initial d styled)).2 := by
  unfold run Shell.initial
  rcases runProgram args _ with ⟨⟨code | f⟩ | ⟨⟩, s⟩ <;> rfl

theorem run_of_ok (h : runProgram args (.initial d styled) = (.ok (), s)) :
    run d styled args = ⟨0, none, s⟩ := by
  unfold run
  change runProgram args { disk := d, styled, verbose := false, reporter := _ } = _ at h
  rw [h]

theorem run_of_exit {code : Nat}
    (h : runProgram args (.initial d styled) = (.error (.exit code), s)) :
    run d styled args = ⟨code, none, s⟩ := by
  unfold run
  change runProgram args { disk := d, styled, verbose := false, reporter := _ } = _ at h
  rw [h]

theorem run_of_error {stop : Stop} (h : runProgram args (.initial d styled) = (.error stop, s))
    (hstop : stop ≠ .exit 0) :
    (run d styled args).exitCode ≠ 0 ∧ (run d styled args).shell = s := by
  unfold run
  change runProgram args { disk := d, styled, verbose := false, reporter := _ } = _ at h
  rw [h]
  cases stop with
  | exit code => exact ⟨fun hcode => hstop (congrArg Stop.exit hcode), rfl⟩
  | failure f => exact ⟨Nat.one_ne_zero, rfl⟩

end Runs

end KestrelCompiler.CommandLine
