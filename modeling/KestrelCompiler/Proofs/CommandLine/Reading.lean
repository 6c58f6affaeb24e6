import KestrelCompiler.Proofs.CommandLine.Quiet

/-!
How a source file is read. Its bytes are decoded and its line breaks unified. Then the reporter
knows the source, and a program is read from it, or the first fault in it is reported.
-/

namespace KestrelCompiler

theorem Failure.ofDisk_eq_ok {α : Type} {r : Except DiskError α} {a : α} :
    ofDisk r = .ok a ↔ r = .ok a := by
  cases r <;> simp [ofDisk]

theorem Failure.decode_eq_ok {bytes : ByteArray} {text : String} :
    decode bytes = .ok text ↔ String.fromUTF8? bytes = some text := by
  rw [decode]
  cases String.fromUTF8? bytes <;> simp

/-- The text of a source file, with its line breaks unified. -/
def Disk.HasSource (d : Disk) (path : Path) (source : String) : Prop :=
  ∃ bytes text, d.read path = .ok bytes ∧ String.fromUTF8? bytes = some text ∧
    source = String.ofList (Text.unifyBreaks text.toList)

theorem Disk.HasSource.unique {d : Disk} {path : Path} {source other : String}
    (h : d.HasSource path source) (h' : d.HasSource path other) : source = other := by
  obtain ⟨bytes, text, hread, htext, rfl⟩ := h
  obtain ⟨bytes', text', hread', htext', rfl⟩ := h'
  cases hread.symm.trans hread'
  cases htext.symm.trans htext'
  rfl

namespace CommandLine

open Shell

variable {s s' : Shell} {path : Path} {source : String}

theorem attempt_eq_ok {α : Type} {r : Except Failure α} {a : α} :
    attempt r s = (.ok a, s') ↔ r = .ok a ∧ s = s' := by
  cases r with
  | ok b => exact Step.pure_eq_ok.trans (by rw [Except.ok.injEq])
  | error f =>
      constructor
      · intro h
        cases h
      · rintro ⟨⟨⟩, -⟩

theorem readSource_eq_ok :
    readSource path s = (.ok source, s') ↔ s.disk.HasSource path source ∧ s = s' := by
  constructor
  · intro h
    obtain ⟨_, _, hget, h⟩ := Step.bind_eq_ok.mp h
    cases hget
    obtain ⟨bytes, _, hattempt, h⟩ := Step.bind_eq_ok.mp h
    obtain ⟨hread, rfl⟩ := attempt_eq_ok.mp hattempt
    obtain ⟨text, _, hattempt, h⟩ := Step.bind_eq_ok.mp h
    obtain ⟨hdecode, rfl⟩ := attempt_eq_ok.mp hattempt
    obtain ⟨rfl, rfl⟩ := Step.pure_eq_ok.mp h
    exact ⟨⟨bytes, text, Failure.ofDisk_eq_ok.mp hread, Failure.decode_eq_ok.mp hdecode, rfl⟩, rfl⟩
  · rintro ⟨⟨bytes, text, hread, hdecode, rfl⟩, rfl⟩
    have hread := attempt_eq_ok.mpr ⟨Failure.ofDisk_eq_ok.mpr hread, Eq.refl s⟩
    have hdecode := attempt_eq_ok.mpr ⟨Failure.decode_eq_ok.mpr hdecode, Eq.refl s⟩
    exact Step.bind_eq_ok.mpr ⟨s, s, rfl, Step.bind_eq_ok.mpr ⟨bytes, s, hread,
      Step.bind_eq_ok.mpr ⟨text, s, hdecode, rfl⟩⟩⟩

/-- The state in which the reporter knows a source. -/
def Shell.knowing (s : Shell) (path : Path) (source : String) : Shell :=
  { s with reporter := s.reporter.addSource path.render source }

theorem readProgram_of_ok {program : Program} (h : s.disk.HasSource path source)
    (hparse : Program.parse source = .ok program) : readProgram path s =
      (log "parser" ("parsed " ++ toString program.declarations.length ++ " declaration(s) from " ++
        path.render) >>= fun _ => pure (some program)) (s.knowing path source) := by
  rw [readProgram, Step.bind_of_ok (readSource_eq_ok.mpr ⟨h, rfl⟩), hparse]
  rfl

theorem readProgram_of_error {problem : Problem} (h : s.disk.HasSource path source)
    (hparse : Program.parse source = .error problem) : readProgram path s =
      (log "parser" ("parse of " ++ path.render ++ " failed at " ++ problem.location.describe) >>=
        fun _ => report (problem.diagnostic path.render) >>= fun _ => pure none)
          (s.knowing path source) := by
  rw [readProgram, Step.bind_of_ok (readSource_eq_ok.mpr ⟨h, rfl⟩), hparse]
  rfl

theorem requireProgram_of_ok {program : Program} (h : s.disk.HasSource path source)
    (hparse : Program.parse source = .ok program) :
    ∃ s', requireProgram path s = (.ok program, s') := by
  refine ⟨_, Step.bind_eq_ok.mpr ⟨some program, _, readProgram_of_ok h hparse, rfl⟩⟩

/-- A program comes from the source file. -/
theorem exists_of_requireProgram {program : Program}
    (h : requireProgram path s = (.ok program, s')) :
    ∃ source, s.disk.HasSource path source ∧ Program.parse source = .ok program := by
  obtain ⟨result, s₁, hread, h⟩ := Step.bind_eq_ok.mp h
  obtain ⟨source, _, hrun, -⟩ := Step.bind_eq_ok.mp hread
  obtain ⟨hsource, rfl⟩ := readSource_eq_ok.mp hrun
  refine ⟨source, hsource, ?_⟩
  cases hparse : Program.parse source with
  | ok other =>
      rw [readProgram_of_ok hsource hparse] at hread
      cases hread
      cases h
      rfl
  | error problem =>
      rw [readProgram_of_error hsource hparse] at hread
      obtain ⟨_, _, -, hread⟩ := Step.bind_eq_ok.mp hread
      obtain ⟨_, _, -, hread⟩ := Step.bind_eq_ok.mp hread
      cases hread
      cases h

end CommandLine

end KestrelCompiler
