import KestrelCompiler.Report

/-!
Histories of a reporter. Sources are added, files are written and diagnostics are rendered one after
the other. Each command gives a result, and leaves the reporter and the disk to the next one.
-/

namespace KestrelCompiler

/-- A reporter and the disk that it reads from. -/
structure Reporting where
  reporter : Reporter
  disk : Disk

namespace Reporting

inductive Command where
  | addSource (filename source : String)
  | writeFile (filename : String) (bytes : ByteArray)
  | render (diagnostic : Diagnostic)

/-- Rendering gives a text, the other commands give nothing. -/
def perform (s : Reporting) : Command → Except Failure (Option String) × Reporting
  | .addSource filename source =>
    (.ok none, { s with reporter := s.reporter.addSource filename source })
  | .writeFile filename bytes =>
    let made := s.disk.install (.ofString filename) bytes
    ((Failure.ofDisk made.1).map fun _ => none, { s with disk := made.2 })
  | .render diagnostic =>
    let rendered := s.reporter.render s.disk diagnostic
    (rendered.1.map some, { s with reporter := rendered.2 })

theorem perform_addSource (s : Reporting) (filename source : String) :
    s.perform (.addSource filename source) = (.ok none, ⟨s.reporter.addSource filename source,
      s.disk⟩) := rfl

theorem perform_writeFile (s : Reporting) (filename : String) (bytes : ByteArray) :
    s.perform (.writeFile filename bytes) =
      ((Failure.ofDisk (s.disk.install (.ofString filename) bytes).1).map fun _ => none,
        ⟨s.reporter, (s.disk.install (.ofString filename) bytes).2⟩) := by
  rw [perform]

theorem perform_render (s : Reporting) (diagnostic : Diagnostic) :
    s.perform (.render diagnostic) =
      ((s.reporter.render s.disk diagnostic).1.map some,
        ⟨(s.reporter.render s.disk diagnostic).2, s.disk⟩) := by
  rw [perform]

/-- What the commands give. A command that fails does not keep the next one from being performed. -/
def results (s : Reporting) : List Command → List (Except Failure (Option String))
  | [] => []
  | command :: rest => (s.perform command).1 :: (s.perform command).2.results rest

/-- The reporter and the disk behind some commands. -/
def after (s : Reporting) (commands : List Command) : Reporting :=
  commands.foldl (fun s command => (s.perform command).2) s

end Reporting

theorem fromUTF8?_toByteArray (text : String) : String.fromUTF8? text.toByteArray = some text :=
  dif_pos text.isValidUTF8

namespace Reporter

variable {d : Disk} {filename : String}

/-- The lines of a file that is found. -/
theorem readLines_of_file {bytes : ByteArray}
    (h : d.find (.ofString filename) = .ok (.file bytes)) :
    readLines d filename = (Failure.decode bytes).map fun text =>
      Text.splitLines (String.ofList (Text.unifyBreaks text.toList)) := by
  unfold readLines
  simp only [h]
  generalize Failure.decode bytes = decoded
  cases decoded with
  | error e => rfl
  | ok text => rfl

/-- Where no file is found there are no lines. -/
theorem readLines_of_no_file (h : ∀ bytes, d.find (.ofString filename) ≠ .ok (.file bytes)) :
    readLines d filename = .ok [] := by
  unfold readLines
  split
  · next bytes hfind => exact absurd hfind (h bytes)
  · rfl

/-- Only a file that is not UTF-8 cannot be read. -/
theorem eq_encoding_of_readLines {e : Failure} (h : readLines d filename = .error e) :
    e = .encoding := by
  by_cases hfile : ∃ bytes, d.find (.ofString filename) = .ok (.file bytes)
  · obtain ⟨bytes, hfind⟩ := hfile
    rw [readLines_of_file hfind] at h
    unfold Failure.decode at h
    split at h
    · cases h
    · cases h
      rfl
  · rw [readLines_of_no_file (not_exists.mp hfile)] at h
    cases h

/-- Disks on which a name stands for the same file are read alike. -/
theorem readLines_of_find_iff {d' : Disk}
    (h : ∀ bytes, d'.find (.ofString filename) = .ok (.file bytes) ↔
      d.find (.ofString filename) = .ok (.file bytes)) :
    readLines d' filename = readLines d filename := by
  by_cases hfile : ∃ bytes, d.find (.ofString filename) = .ok (.file bytes)
  · obtain ⟨bytes, hfind⟩ := hfile
    rw [readLines_of_file hfind, readLines_of_file ((h bytes).mpr hfind)]
  · have hnone := not_exists.mp hfile
    rw [readLines_of_no_file hnone,
      readLines_of_no_file fun bytes hfind => hnone bytes ((h bytes).mp hfind)]

end Reporter

end KestrelCompiler
