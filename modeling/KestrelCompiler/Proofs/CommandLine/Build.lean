import KestrelCompiler.Proofs.CommandLine.Reading
import KestrelCompiler.Proofs.CommandLine.Request
import KestrelCompiler.Proofs.Config.Nearest
import KestrelCompiler.Proofs.Disk.Naming

/-!
A build is all or nothing. It writes one file, with the module that the source file compiles to
under the configuration that governs it, or it fails and writes nothing.
-/

namespace KestrelCompiler.CommandLine

open Shell

/-- A program is lowered to a module with this text, all of whose numbers can be written. -/
def Emits (program : Program) (config : Config) (path : Path) (text : String) : Prop :=
  ∃ emitter, (emitterFor program config path).emit = (.ok text, emitter) ∧
    (emitter.module.isWritable && config.targetTriple.isWritable) = true

/-- A program is read from the source file, and emitted under the configuration that governs it. -/
def Compiles (d : Disk) (path : Path) (text : String) : Prop :=
  ∃ source program config, d.HasSource path source ∧ Program.parse source = .ok program ∧
    Config.Governs d path config ∧ Emits program config path text

variable {d : Disk} {s s' : Shell} {path target : Path}

theorem requireWritable_true : requireWritable true = pure () :=
  rfl

theorem exists_logOrigin (path : Path) (origin : Config.Origin) (s : Shell) :
    ∃ s', logOrigin path origin s = (.ok (), s') := by
  cases origin <;> exact ⟨_, rfl⟩

theorem exists_logEvents (events : List Event) (s : Shell) :
    ∃ s', logEvents events s = (.ok (), s') := by
  induction events generalizing s with
  | nil => exact ⟨s, rfl⟩
  | cons event rest ih => cases event <;> exact ih _

/-- What is noted before a module is written only adds to the error stream. -/
theorem exists_notes (path : Path) (origin : Config.Origin) (events : List Event) (s : Shell) :
    ∃ s', s.Keeps s' ∧ ∀ x : Action Unit,
      (logOrigin path origin >>= fun _ => logEvents events >>= fun _ => x) s = x s' := by
  obtain ⟨s₁, horigin⟩ := exists_logOrigin path origin s
  obtain ⟨s₂, hevents⟩ := exists_logEvents events s₁
  have hkeeps := ((quiet_logOrigin path origin).keeps horigin).trans
    ((quiet_logEvents events).keeps hevents)
  refine ⟨s₂, hkeeps, fun x => ?_⟩
  rw [Step.bind_of_ok horigin, Step.bind_of_ok hevents]

/-- The last part of a build: the module is written, and the user is told. -/
def deliver (path target : Path) (text : String) : Action Unit := do
  let disk ← attempt (Failure.ofDisk ((← Step.get).disk.write target text.toUTF8))
  Step.update fun s => { s with disk := disk }
  log "cli" ("wrote " ++ toString text.length ++ " bytes of IR")
  print ("built " ++ path.render ++ " -> " ++ target.render)

theorem deliver_cases (path target : Path) (text : String) (s : Shell) :
    s.Fails (deliver path target text s) ∨ ∃ s', deliver path target text s = (.ok (), s') ∧
      s.disk.write target text.toUTF8 = .ok s'.disk ∧
      s'.out = s.out ++ s.shown ("built " ++ path.render ++ " -> " ++ target.render) ∧
      s'.styled = s.styled := by
  rw [deliver, Step.get_bind]
  rcases hwrite : s.disk.write target text.toUTF8 with e | disk
  · exact .inl ⟨_, _, rfl, Stop.noConfusion, .refl s⟩
  have hlogged := (quiet_log "cli" ("wrote " ++ toString text.length ++ " bytes of IR")
    { s with disk }).1
  refine .inr ⟨_, rfl, ?_, ?_, ?_⟩
  · exact congrArg Except.ok hlogged.disk.symm
  · exact congrArg₂ (· ++ ·) hlogged.out (hlogged.shown _)
  · exact hlogged.styled

/-- What a build has done to a shell when it succeeds. -/
structure Built (s s' : Shell) (path target : Path) : Prop where
  written : ∃ text, Compiles s.disk path text ∧ s.disk.write target text.toUTF8 = .ok s'.disk
  out : s'.out = s.out ++ s.shown ("built " ++ path.render ++ " -> " ++ target.render)
  styled : s'.styled = s.styled

/-- A build fails as long as it reads and reports, or it delivers what the source compiles to. -/
theorem build_cases (file : String) (output : Option String) (s : Shell) :
    s.Fails (build file output s) ∨ ∃ s', build file output s = (.ok (), s') ∧
      Built s s' (.ofString file) (outputPath (.ofString file) output) := by
  unfold build
  generalize Path.ofString file = path
  rcases (quiet_requireProgram path).bind_cases _ s with hfails | ⟨program, s₁, hprogram, hk, heq⟩
  · exact .inl hfails
  rw [heq, Step.get_bind]
  rcases (quiet_attempt (Config.governing s₁.disk path)).bind_cases _ s₁ with
    hfails | ⟨⟨config, origin⟩, s₂, hattempt, -, heq⟩
  · exact .inl (hk.fails hfails)
  obtain ⟨hgoverning, rfl⟩ := attempt_eq_ok.mp hattempt
  rw [heq]
  dsimp only
  rcases hemit : (emitterFor program config path).emit with ⟨result, emitter⟩
  obtain ⟨s₂, hk₂, hnotes⟩ := exists_notes path origin emitter.events s₁
  rw [hnotes]
  have hkeeps := hk.trans hk₂
  -- the disk is still as it was: whatever fails from here to the write leaves it so
  rcases result with (fault | reason) | text
  · exact .inl (hkeeps.fails ((quiet_requireWritable _).fails_bind
      (fun _ => (quiet_report _).fails_bind fun _ => fails_exit Nat.one_ne_zero) s₂))
  · exact .inl ⟨_, s₂, rfl, Stop.noConfusion, hkeeps⟩
  dsimp only
  cases hwritable : emitter.module.isWritable && config.targetTriple.isWritable with
  | false => exact .inl ⟨_, s₂, rfl, Stop.noConfusion, hkeeps⟩
  | true =>
      obtain ⟨source, hsource, hparse⟩ := exists_of_requireProgram hprogram
      have hgoverns := Config.governs_iff.mpr ⟨origin, hgoverning⟩
      rw [hk.disk] at hgoverns
      rw [requireWritable_true, Step.pure_bind]
      rcases deliver_cases path (outputPath path output) text s₂ with
        hfails | ⟨s', hdelivered, hwrite, hout, hstyled⟩
      · exact .inl (hkeeps.fails hfails)
      · refine .inr ⟨s', hdelivered, ⟨text, ?_, ?_⟩, ?_, ?_⟩
        · exact ⟨source, program, config, hsource, hparse, hgoverns, emitter, hemit, hwritable⟩
        · rwa [← hkeeps.disk]
        · rw [hout, hkeeps.out, hkeeps.shown]
        · rw [hstyled, hkeeps.styled]

section Success

variable {text : String} {d' : Disk}

/-- A source that compiles is built where the module can be written. -/
theorem exists_build {file : String} {output : Option String}
    (h : Compiles s.disk (.ofString file) text)
    (hwrite : s.disk.write (outputPath (.ofString file) output) text.toUTF8 = .ok d') :
    ∃ s', build file output s = (.ok (), s') := by
  obtain ⟨source, program, config, hsource, hparse, hgoverns, emitter, hemit, hwritable⟩ := h
  unfold build
  generalize Path.ofString file = path at *
  obtain ⟨s₁, hprogram⟩ := requireProgram_of_ok hsource hparse
  have hk := (quiet_requireProgram path).keeps hprogram
  obtain ⟨origin, hgoverning⟩ := Config.governs_iff.mp hgoverns
  rw [← hk.disk] at hgoverning
  rw [Step.bind_of_ok hprogram, Step.get_bind,
    Step.bind_of_ok (attempt_eq_ok.mpr ⟨hgoverning, rfl⟩)]
  dsimp only
  obtain ⟨s₂, hk₂, hnotes⟩ := exists_notes path origin emitter.events s₁
  rw [hemit, hnotes]
  dsimp only
  rw [hwritable, requireWritable_true, Step.pure_bind]
  rw [← (hk.trans hk₂).disk] at hwrite
  rcases deliver_cases path (outputPath path output) text s₂ with
    ⟨stop, s', hstop, -⟩ | ⟨s', hdelivered, -⟩
  · rw [deliver, Step.get_bind, hwrite] at hstop
    cases hstop
  · exact ⟨s', hdelivered⟩

/-- What can be written to is accepted as an output file. -/
theorem checkOutput_of_write {output : Option String} {bytes : ByteArray}
    (h : s.disk.write (outputPath path output) bytes = .ok d') :
    checkOutput output s = (.ok (), s) := by
  rcases output with _ | file
  · rfl
  change requireOutput file s = _
  rw [requireOutput, Step.get_bind]
  by_cases hempty : file = ""
  · subst hempty
    rfl
  rw [outputPath, if_neg hempty] at h
  obtain ⟨place, hreaches, hfree, -⟩ := Disk.write_eq_ok h
  -- of what is found there, only a directory is refused, and no directory can be written to
  rcases hfound : s.disk.findText file with e | bytes | contents
  · by_cases hnull : e = .nullCharacter
    · subst hnull
      have hmem := Path.mem_render_of_mem (Disk.mem_of_findText hfound) (by decide) (by decide)
      rw [Disk.write, Disk.checkText, if_pos (by simpa using hmem)] at h
      cases h
    · cases e <;> first | rfl | exact absurd rfl hnull
  · rfl
  · obtain ⟨found, hfollow, hentry⟩ := Disk.exists_of_find (Disk.find_of_findText hfound)
    cases hreaches.symm.trans hfollow
    rw [Disk.sight?, hentry] at hfree
    exact absurd rfl hfree

theorem exists_runCommand_build {rest : List String} {file : String} {special : List Given}
    {bytes : ByteArray}
    (h : readOptions (Level.command .build).forms true rest = .ok (special, [file]))
    (hspecial : ∀ g ∈ special, ¬ g.IsInquiry) (hfile : s.disk.findText file = .ok (.file bytes))
    (hcompiles : Compiles s.disk (.ofString file) text)
    (hwrite : s.disk.write (outputPath (.ofString file) (outputOption special)) text.toUTF8 =
      .ok d') : ∃ s', runCommand .build rest s = (.ok (), s') := by
  rw [runCommand_of_readOptions h hspecial, Step.bind_of_ok (checkOutput_of_write hwrite), perform,
    Step.bind_of_ok (requireFile_eq hfile), runCommand.requireNone, Step.pure_bind]
  exact exists_build hcompiles hwrite

end Success

theorem Shell.Keeps.built {s₀ : Shell} (h : s₀.Keeps s) (hbuilt : Built s s' path target) :
    Built s₀ s' path target := by
  obtain ⟨hwritten, hout, hstyled⟩ := hbuilt
  refine ⟨h.disk ▸ hwritten, ?_, hstyled.trans h.styled⟩
  rw [hout, h.out, h.shown]

theorem requireNone_eq_ok {c : Command} {extra : List String}
    (h : runCommand.requireNone c extra s = (.ok (), s')) : extra = [] := by
  cases extra with
  | nil => rfl
  | cons file rest => cases h

/-- All that is looked at before a build begins changes nothing. There is no second file. -/
theorem runCommand_build_cases {rest extra : List String} {file : String} {special : List Given}
    (h : readOptions (Level.command .build).forms true rest = .ok (special, file :: extra))
    (hspecial : ∀ g ∈ special, ¬ g.IsInquiry) (s : Shell) :
    s.Fails (runCommand .build rest s) ∨
      extra = [] ∧ ∃ s', runCommand .build rest s = (.ok (), s') ∧
        Built s s' (.ofString file) (outputPath (.ofString file) (outputOption special)) := by
  rw [runCommand_of_readOptions h hspecial]
  rcases (quiet_checkOutput _).bind_cases _ s with hfails | ⟨_, s₁, -, hk₁, heq⟩
  · exact .inl hfails
  rw [heq, perform]
  rcases (quiet_requireFile .build file).bind_cases _ s₁ with hfails | ⟨_, s₂, -, hk₂, heq⟩
  · exact .inl (hk₁.fails hfails)
  rw [heq]
  rcases (quiet_requireNone .build extra).bind_cases _ s₂ with hfails | ⟨_, s₃, hnone, hk₃, heq⟩
  · exact .inl ((hk₁.trans hk₂).fails hfails)
  rw [heq]
  have hkeeps := (hk₁.trans hk₂).trans hk₃
  rcases build_cases file (outputOption special) s₃ with hfails | ⟨s', hrun, hbuilt⟩
  · exact .inl (hkeeps.fails hfails)
  · exact .inr ⟨requireNone_eq_ok hnone, s', hrun, hkeeps.built hbuilt⟩

section Runs

variable {args extra : List String} {file : String} {output : Option String}

/-- A run of a build fails and leaves the disk as it is, or it succeeds and has built the file. -/
theorem run_build_cases (h : Requests args .build (file :: extra) output) (d : Disk)
    (styled : Bool) :
    (run d styled args).exitCode ≠ 0 ∧ (run d styled args).shell.disk = d ∨
    extra = [] ∧ (run d styled args).exitCode = 0 ∧
      Built (.initial d styled) (run d styled args).shell (.ofString file)
        (outputPath (.ofString file) output) := by
  obtain ⟨hgeneral, hasked, hspecial, hasked'⟩ := h
  have hrun := runProgram_eq hgeneral hasked (.initial d styled)
  rcases runCommand_build_cases hspecial hasked' ((Shell.initial d styled).configured _) with
    ⟨stop, s', heq, hstop, hkeeps⟩ | ⟨hextra, s', heq, hbuilt⟩
  · obtain ⟨hcode, hshell⟩ := run_of_error (hrun.trans heq) hstop
    rw [hshell]
    exact .inl ⟨hcode, hkeeps.disk⟩
  · rw [run_of_ok (hrun.trans heq)]
    exact .inr ⟨hextra, rfl, hbuilt.written, hbuilt.out, hbuilt.styled⟩

/-- A build succeeds where there is a source that compiles, and the module can be written. -/
theorem run_of_compiles {d d' : Disk} {bytes : ByteArray} {text : String}
    (h : Requests args .build [file] output) (hfile : d.findText file = .ok (.file bytes))
    (hcompiles : Compiles d (.ofString file) text)
    (hwrite : d.write (outputPath (.ofString file) output) text.toUTF8 = .ok d') (styled : Bool) :
    (run d styled args).exitCode = 0 := by
  obtain ⟨hgeneral, hasked, hspecial, hasked'⟩ := h
  have hrun := runProgram_eq hgeneral hasked (.initial d styled)
  obtain ⟨s', hbuild⟩ := exists_runCommand_build
    (s := (Shell.initial d styled).configured _) hspecial hasked' hfile hcompiles hwrite
  rw [run_of_ok (hrun.trans hbuild)]

/-- Why a source file cannot be built. -/
inductive BuildFault (d : Disk) (path : Path) : Prop
  | encoding {bytes : ByteArray} : d.read path = .ok bytes → String.fromUTF8? bytes = none →
    BuildFault d path
  | grammar {source : String} {problem : Problem} : d.HasSource path source →
    Program.parse source = .error problem → BuildFault d path
  | configuration : (∀ config, ¬ Config.Governs d path config) → BuildFault d path
  | emission {source : String} {program : Program} {config : Config} : d.HasSource path source →
    Program.parse source = .ok program → Config.Governs d path config →
    (∀ text, ¬ Emits program config path text) → BuildFault d path

theorem BuildFault.not_compiles (h : BuildFault d path) (text : String) :
    ¬ Compiles d path text := by
  rintro ⟨source, program, config, hsource, hparse, hgoverns, hemits⟩
  cases h with
  | encoding hread htext =>
      obtain ⟨bytes, text, hread', htext', -⟩ := hsource
      cases hread.symm.trans hread'
      cases htext.symm.trans htext'
  | grammar hsource' hfault =>
      cases hsource.unique hsource'
      cases hparse.symm.trans hfault
  | configuration hnone => exact hnone config hgoverns
  | emission hsource' hparse' hgoverns' hnone =>
      cases hsource.unique hsource'
      cases hparse.symm.trans hparse'
      cases hgoverns.unique hgoverns'
      exact hnone text hemits

/-- A source file that cannot be built is not built, and a build that fails changes nothing. A build
that succeeds writes one file, with the text that the source compiles to, and tells of it. It does
succeed where there is such a text and it can be written. -/
theorem build_all_or_nothing {d : Disk} (hd : d.sight? d.working = some .directory) (styled : Bool)
    (h : Requests args .build [file] output) :
    (BuildFault d (.ofString file) → (run d styled args).exitCode ≠ 0) ∧
    ((run d styled args).exitCode ≠ 0 → (run d styled args).shell.disk = d) ∧
    ((run d styled args).exitCode = 0 → ∃ text, Compiles d (.ofString file) text ∧
      d.Writes (run d styled args).shell.disk (outputPath (.ofString file) output) text.toUTF8 ∧
      (run d styled args).shell.out = (run d styled args).shell.shown
        ("built " ++ (Path.ofString file).render ++ " -> " ++
          (outputPath (.ofString file) output).render)) ∧
    (∀ bytes text d', d.findText file = .ok (.file bytes) → Compiles d (.ofString file) text →
      d.write (outputPath (.ofString file) output) text.toUTF8 = .ok d' →
      (run d styled args).exitCode = 0) := by
  have hsucceeds := fun bytes text d' (hfile : d.findText file = .ok (.file bytes))
    (hcompiles : Compiles d (.ofString file) text) (hwrite : d.write _ text.toUTF8 = .ok d') =>
      run_of_compiles h hfile hcompiles hwrite styled
  rcases run_build_cases h d styled with ⟨hcode, hdisk⟩ | ⟨-, hcode, hbuilt⟩
  · exact ⟨fun _ => hcode, fun _ => hdisk, fun hzero => absurd hzero hcode, hsucceeds⟩
  obtain ⟨⟨text, hcompiles, hwrite⟩, hout, hstyled⟩ := hbuilt
  refine ⟨fun hfault => absurd hcompiles (hfault.not_compiles text),
    fun hne => absurd hcode hne,
    fun _ => ⟨text, hcompiles, Disk.writes_of_write hd hwrite, ?_⟩, hsucceeds⟩
  rw [hout, Shell.shown, Shell.shown, hstyled]
  exact String.empty_append

/-- A function that does nothing. -/
def idleSource : String := "f() \x7b \x7d"

/-- A disk with one file in its working directory. -/
def diskOf (name source : String) : Disk where
  working := []
  root := .directory [(name, .file source.toUTF8)]

theorem build_all_or_nothing_empty :
    (diskOf "a.kst" idleSource).sight? [] = some .directory ∧
    (run (diskOf "a.kst" idleSource) false ["build", "a.kst"]).exitCode = 0 ∧
    ∃ text, Compiles (diskOf "a.kst" idleSource) (.ofString "a.kst") text ∧
      (diskOf "a.kst" idleSource).Writes
        (run (diskOf "a.kst" idleSource) false ["build", "a.kst"]).shell.disk
        (.ofString "a.ll") text.toUTF8 := by
  have hcode : (run (diskOf "a.kst" idleSource) false ["build", "a.kst"]).exitCode = 0 := by
    decide +kernel
  have hrequests : Requests ["build", "a.kst"] .build ["a.kst"] none :=
    requests_of_files .build (by decide)
  obtain ⟨text, hcompiles, hwrites, -⟩ :=
    (build_all_or_nothing (d := diskOf "a.kst" idleSource) rfl false hrequests).2.2.1 hcode
  have htarget : outputPath (.ofString "a.kst") none = .ofString "a.ll" := by decide +kernel
  rw [htarget] at hwrites
  exact ⟨rfl, hcode, text, hcompiles, hwrites⟩

end Runs

end KestrelCompiler.CommandLine
