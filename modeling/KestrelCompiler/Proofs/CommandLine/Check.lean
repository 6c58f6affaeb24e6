import KestrelCompiler.Proofs.CommandLine.Reading
import KestrelCompiler.Proofs.CommandLine.Request
import KestrelCompiler.Proofs.Disk.Naming
import KestrelCompiler.Proofs.Report.Caret
import KestrelCompiler.Proofs.Report.Color

/-!
Checking several files. What is told of a file depends on that file only: its source is what the
reporter learned last, so that nothing is left of the files before it, even if they have the same
name.
-/

namespace KestrelCompiler

theorem Text.length_unifyBreaks_le (text : List Char) :
    (unifyBreaks text).length ≤ text.length := by
  fun_induction unifyBreaks text with
  | case1 => exact Nat.le_refl _
  | case2 rest ih => exact Nat.succ_le_succ (ih.trans (Nat.le_succ _))
  | case3 rest _ ih => exact Nat.succ_le_succ ih
  | case4 c rest _ _ ih => exact Nat.succ_le_succ ih

/-- A file that can be read as text, which fits into memory. -/
def Disk.IsReadable (d : Disk) (file : String) : Prop :=
  ∃ bytes text, d.findText file = .ok (.file bytes) ∧ String.fromUTF8? bytes = some text ∧
    text.toList.length ≤ Text.maxRow

theorem Disk.IsReadable.exists_source {d : Disk} {file : String} (h : d.IsReadable file) :
    ∃ source, d.HasSource (.ofString file) source ∧ source.toList.length ≤ Text.maxRow := by
  obtain ⟨bytes, text, hfind, htext, hlength⟩ := h
  refine ⟨_, ⟨bytes, text, read_eq_ok_iff.mpr (find_of_findText hfind), htext, rfl⟩, ?_⟩
  rw [String.toList_ofList]
  exact (Text.length_unifyBreaks_le _).trans hlength

/-- A problem with a column that fits into memory can be shown. -/
theorem Reporter.exists_showing (color : Bool) (lines : List String) (filename : String)
    {p : Problem} (hcolumn : 0 ≤ p.location.column) (hrow : p.location.column ≤ Text.maxRow) :
    ∃ text, showing color (.ok lines) (p.diagnostic filename) = .ok text := by
  have hlabel : ∃ shown,
      labelLines color filename lines ⟨⟨p.location, p.location⟩, p.hint⟩ = .ok shown := by
    cases hline : lineAt? lines p.location.line with
    | none =>
        simp only [labelLines, hline]
        exact ⟨_, rfl⟩
    | some line =>
        obtain ⟨before, after, hshown⟩ := labelLines_of_snippet filename p.hint hline
          (snippet_point color line hcolumn hrow)
        exact ⟨_, hshown⟩
  obtain ⟨shown, hshown⟩ := hlabel
  simp only [showing, Problem.diagnostic, List.isEmpty_cons, allLines]
  change ∃ text, ((labelLines color filename lines _ >>= _) >>= _) = _
  rw [hshown]
  exact ⟨_, rfl⟩

theorem Program.column_of_error {source : String} {p : Problem} (h : parse source = .error p) :
    0 ≤ p.location.column ∧ p.location.column ≤ source.toList.length := by
  obtain ⟨k, hk, hpoint⟩ := exists_point_of_error h
  have hcolumn := (Location.isPoint_point hk).column
  rw [← hpoint] at hcolumn
  have hlength := (List.takeWhile_sublist (· ≠ '\n')
    (l := (source.toList.take k).reverse)).length_le
  rw [List.length_reverse, List.length_take] at hlength
  omega

namespace CommandLine

open Shell

/-- Shells with the same disk and the same settings. -/
structure Shell.Alike (s t : Shell) : Prop where
  disk : t.disk = s.disk
  styled : t.styled = s.styled
  verbose : t.verbose = s.verbose
  color : t.reporter.color = s.reporter.color

theorem Shell.Alike.refl (s : Shell) : s.Alike s :=
  ⟨rfl, rfl, rfl, rfl⟩

theorem Shell.Alike.keeps {s t u : Shell} (h : s.Alike t) (h' : t.Keeps u) : s.Alike u :=
  ⟨h'.disk.trans h.disk, h'.styled.trans h.styled, h'.verbose.trans h.verbose,
    h'.color.trans h.color⟩

section Telling

variable {s t : Shell} {file : String}

/-- The shell with more on its error stream. -/
def Shell.telling (s : Shell) (text : String) : Shell :=
  { s with err := s.err ++ text }

theorem Shell.keeps_telling (s : Shell) (text : String) : s.Keeps (s.telling text) :=
  ⟨rfl, rfl, rfl, rfl, rfl⟩

theorem Shell.keeps_knowing (s : Shell) (path : Path) (source : String) :
    s.Keeps (s.knowing path source) :=
  ⟨rfl, rfl, rfl, rfl, rfl⟩

/-- What a note adds to the error stream. -/
def Shell.noted (s : Shell) (source message : String) : String :=
  if s.verbose then "DEBUG kestrel." ++ source ++ ": " ++ message ++ "\n" else ""

theorem log_eq (source message : String) (s : Shell) :
    log source message s = (.ok (), s.telling (s.noted source message)) := by
  rw [log, Step.update, telling, noted]
  split
  · simp only [String.append_assoc]
  · rw [String.append_empty]

/-- A report on a file that the reporter knows. -/
theorem report_of_known {diagnostic : Diagnostic} {lines : List String} {text : String}
    (hknown : s.reporter.known? diagnostic.filename = some lines)
    (hshown : Reporter.showing s.reporter.color (.ok lines) diagnostic = .ok text) :
    report diagnostic s = (.ok (), s.telling (s.shown text)) := by
  rw [report_eq, Reporter.render_eq, Reporter.linesOf_of_known hknown, hshown, ite_self]
  rfl

/-- Reading a file finds a fault or not, and tells the same in all shells with the disk and the
settings of `s`. -/
def Tells (s : Shell) (file : String) (fault : Bool) (text : String) : Prop :=
  ∀ t, s.Alike t → ∃ program t', readProgram (.ofString file) t = (.ok program, t') ∧
    program.isNone = fault ∧ t.Keeps t' ∧ t'.err = t.err ++ text

theorem Shell.Alike.noted {t : Shell} (h : s.Alike t) (source message : String) :
    t.noted source message = s.noted source message := by
  rw [Shell.noted, Shell.noted, h.verbose]

theorem Shell.Alike.shown {t : Shell} (h : s.Alike t) (text : String) :
    t.shown text = s.shown text := by
  rw [Shell.shown, Shell.shown, h.styled]

theorem tells_of_ok {source : String} {program : Program}
    (h : s.disk.HasSource (.ofString file) source) (hparse : Program.parse source = .ok program) :
    Tells s file false (s.noted "parser" ("parsed " ++ toString program.declarations.length ++
      " declaration(s) from " ++ (Path.ofString file).render)) := by
  intro t ht
  rw [readProgram_of_ok (ht.disk ▸ h) hparse, Step.bind_of_ok (log_eq ..)]
  refine ⟨_, _, rfl, rfl, (t.keeps_knowing _ source).trans (Shell.keeps_telling _ _), ?_⟩
  exact congrArg (t.err ++ ·) (ht.noted _ _)

theorem tells_of_error {source text : String} {problem : Problem}
    (h : s.disk.HasSource (.ofString file) source)
    (hparse : Program.parse source = .error problem)
    (hshown : Reporter.showing s.reporter.color (.ok (Text.splitLines source))
      (problem.diagnostic (Path.ofString file).render) = .ok text) :
    Tells s file true (s.noted "parser" ("parse of " ++ (Path.ofString file).render ++
      " failed at " ++ problem.location.describe) ++ s.shown text) := by
  intro t ht
  rw [readProgram_of_error (ht.disk ▸ h) hparse, Step.bind_of_ok (log_eq ..)]
  rw [← ht.color] at hshown
  -- whatever was known of the file before, now it is this source
  have hknown : (t.knowing (.ofString file) source).reporter.known? (Path.ofString file).render =
      some (Text.splitLines source) :=
    (Reporter.known?_register ..).trans (if_pos rfl)
  have hreport (note : String) : report (problem.diagnostic (Path.ofString file).render)
      ((t.knowing (.ofString file) source).telling note) =
        (.ok (), ((t.knowing (.ofString file) source).telling note).telling (t.shown text)) :=
    report_of_known hknown hshown
  rw [Step.bind_of_ok (hreport _)]
  refine ⟨_, _, rfl, rfl, (t.keeps_knowing _ source).trans
    ((Shell.keeps_telling _ _).trans (Shell.keeps_telling _ _)), ?_⟩
  rw [← ht.noted, ← ht.shown, ← String.append_assoc]
  rfl

theorem exists_tells (h : s.disk.IsReadable file) : ∃ fault text, Tells s file fault text := by
  obtain ⟨source, hsource, hlength⟩ := h.exists_source
  cases hparse : Program.parse source with
  | ok program => exact ⟨_, _, tells_of_ok hsource hparse⟩
  | error problem =>
      obtain ⟨hcolumn, hrow⟩ := Program.column_of_error hparse
      obtain ⟨text, hshown⟩ := Reporter.exists_showing s.reporter.color
        (Text.splitLines source) (Path.ofString file).render hcolumn (by omega)
      exact ⟨_, _, tells_of_error hsource hparse hshown⟩

/-- What is told of several files is what is told of each of them. -/
theorem checkAll_of_tells {fault : String → Bool} {text : String → String} {files : List String}
    (h : ∀ file ∈ files, Tells s file (fault file) (text file)) (t : Shell) (ht : s.Alike t) :
    ∃ t', checkAll files t = (.ok (files.any fault), t') ∧ t.Keeps t' ∧
      t'.err = t.err ++ String.join (files.map text) := by
  -- each file leaves a shell that is like the first one in all that the next file depends on
  induction files generalizing t with
  | nil => exact ⟨t, rfl, .refl t, String.append_empty.symm⟩
  | cons file rest ih =>
      obtain ⟨hfile, hrest⟩ := List.forall_mem_cons.mp h
      obtain ⟨program, t₁, hread, hfault, hkeeps, herr⟩ := hfile t ht
      obtain ⟨t₂, hcheck, hkeeps', herr'⟩ := ih hrest t₁ (ht.keeps hkeeps)
      refine ⟨t₂, ?_, hkeeps.trans hkeeps', ?_⟩
      · rw [checkAll, Step.bind_of_ok hread, Step.bind_of_ok hcheck, hfault]
        rfl
      · rw [herr', herr, List.map_cons, String.join_cons, String.append_assoc]

theorem check_eq (files : List String) : check files = checkAll files >>= fun failed =>
    if failed then exit 1
    else print ("checked " ++ toString files.length ++ " file(s), no errors") := by
  rw [check]
  refine congrArg (checkAll files >>= ·) (funext fun failed => ?_)
  cases failed <;> rfl

theorem requireFiles_eq {c : Command} {files : List String}
    (h : ∀ file ∈ files, ∃ bytes, s.disk.findText file = .ok (.file bytes)) :
    requireFiles c files s = (.ok (), s) := by
  induction files with
  | nil => rfl
  | cons file rest ih =>
      obtain ⟨⟨bytes, hfile⟩, hrest⟩ := List.forall_mem_cons.mp h
      rw [requireFiles, Step.bind_of_ok (requireFile_eq hfile), ih hrest]

end Telling

section Runs

variable {d : Disk} {styled : Bool} {file : String} {files : List String}

/-- What a check of some files leaves behind. -/
structure Checked (r : Run) (count : Nat) (fault : Bool) (text : String) : Prop where
  err : r.shell.err = text
  exitCode : r.exitCode = if fault then 1 else 0
  out : r.shell.out =
    if fault then "" else "checked " ++ toString count ++ " file(s), no errors\n"

/-- The last line of a check holds no style sequence. -/
theorem shown_summary (s : Shell) (count : Nat) :
    s.shown ("checked " ++ toString count ++ " file(s), no errors") =
      "checked " ++ toString count ++ " file(s), no errors\n" := by
  have hfree : Text.EscapeFree ("checked " ++ toString count ++ " file(s), no errors") :=
    (Text.EscapeFree.append (by decide) (.repr count)).append (by decide)
  have hsame : (if s.styled then "checked " ++ toString count ++ " file(s), no errors"
      else Text.stripStyles ("checked " ++ toString count ++ " file(s), no errors")) =
        "checked " ++ toString count ++ " file(s), no errors" := by
    rw [(Text.Decorates.refl hfree).stripStyles_eq, ite_self]
  rw [shown, hsame, String.append_assoc]
  rfl

theorem runProgram_check (hne : files ≠ []) (hwords : ∀ file ∈ files, isOption file = false)
    (hfiles : ∀ file ∈ files, ∃ bytes, d.findText file = .ok (.file bytes)) :
    runProgram (Command.check.name :: files) (.initial d styled) =
      check files (.initial d styled) := by
  obtain ⟨file, rest, rfl⟩ := List.exists_cons_of_ne_nil hne
  have hstart : (Shell.initial d styled).configured [] = .initial d styled := rfl
  have hnone : checkOutput (outputOption []) = pure () := rfl
  rw [runProgram_eq (readOptions_of_not_isOption (by decide) (file :: rest)) nofun, hstart,
    runCommand_of_readOptions (readOptions_files hwords) nofun, hnone, Step.pure_bind, perform]
  have hrequire := requireFiles_eq (c := .check) (s := .initial d styled) hfiles
  rw [Step.bind_of_ok hrequire]

theorem run_check (hne : files ≠ []) (hwords : ∀ file ∈ files, isOption file = false)
    (hfiles : ∀ file ∈ files, ∃ bytes, d.findText file = .ok (.file bytes))
    (fault : String → Bool) (text : String → String)
    (htells : ∀ file ∈ files, Tells (.initial d styled) file (fault file) (text file)) :
    Checked (run d styled (Command.check.name :: files)) files.length (files.any fault)
      (String.join (files.map text)) := by
  obtain ⟨s, hcheck, hkeeps, herr⟩ := checkAll_of_tells htells _ (.refl _)
  have hrun : runProgram (Command.check.name :: files) (.initial d styled) = _ :=
    runProgram_check hne hwords hfiles
  rw [check_eq, Step.bind_of_ok hcheck] at hrun
  have herr' : s.err = String.join (files.map text) := herr.trans String.empty_append
  have hout : s.out = "" := hkeeps.out
  cases hfault : files.any fault with
  | true =>
      rw [hfault] at hrun
      rw [run_of_exit hrun]
      exact ⟨herr', rfl, hout⟩
  | false =>
      rw [hfault] at hrun
      rw [run_of_ok hrun]
      refine ⟨herr', rfl, ?_⟩
      change s.out ++ s.shown _ = _
      rw [hout, shown_summary]
      exact String.empty_append

theorem not_isOption (h : file.toList.head? ≠ some '-') : isOption file = false := by
  rw [isOption, decide_eq_false h, Bool.false_and]

/-- A file that is checked together with others is told of as if it were checked alone. -/
theorem tells_alone (hword : file.toList.head? ≠ some '-') (hfile : d.IsReadable file) :
    Tells (.initial d styled) file
      (decide ((run d styled [Command.check.name, file]).exitCode = 1))
      (run d styled [Command.check.name, file]).shell.err := by
  obtain ⟨fault, text, htells⟩ := exists_tells (s := .initial d styled) hfile
  obtain ⟨bytes, -, hfind, -⟩ := hfile
  have halone := run_check (List.cons_ne_nil file [])
    (List.forall_mem_singleton.mpr (not_isOption hword))
    (List.forall_mem_singleton.mpr ⟨bytes, hfind⟩) (fun _ => fault) (fun _ => text)
    (List.forall_mem_singleton.mpr htells)
  have herr : (run d styled [Command.check.name, file]).shell.err = text :=
    halone.err.trans (by simp)
  have hcode : decide ((run d styled [Command.check.name, file]).exitCode = 1) = fault := by
    rw [halone.exitCode]
    cases fault <;> rfl
  rwa [herr, hcode]

/-- Files are checked independently of each other. -/
theorem check_independent (d : Disk) (styled : Bool) {files : List String} (hne : files ≠ [])
    (hfiles : ∀ file ∈ files, file.toList.head? ≠ some '-' ∧ d.IsReadable file) :
    (run d styled ("check" :: files)).shell.err =
      String.join (files.map fun file => (run d styled ["check", file]).shell.err) ∧
    ((run d styled ("check" :: files)).exitCode = 1 ↔
      ∃ file ∈ files, (run d styled ["check", file]).exitCode = 1) ∧
    ((run d styled ("check" :: files)).exitCode = 1 →
      (run d styled ("check" :: files)).shell.out = "") ∧
    ((run d styled ("check" :: files)).exitCode ≠ 1 →
      (run d styled ("check" :: files)).exitCode = 0 ∧
      (run d styled ("check" :: files)).shell.out =
        "checked " ++ toString files.length ++ " file(s), no errors\n") := by
  have htells : ∀ file ∈ files, Tells (.initial d styled) file _ _ := fun file hfile =>
    tells_alone (hfiles file hfile).1 (hfiles file hfile).2
  obtain ⟨herr, hcode, hout⟩ := run_check hne
    (fun file hfile => not_isOption (hfiles file hfile).1)
    (fun file hfile => (hfiles file hfile).2.imp fun _ ⟨_, hfind, _⟩ => hfind) _ _ htells
  have hsome : (files.any fun file =>
      decide ((run d styled [Command.check.name, file]).exitCode = 1)) = true ↔
        ∃ file ∈ files, (run d styled ["check", file]).exitCode = 1 := by
    rw [List.any_eq_true]
    exact exists_congr fun file => and_congr_right fun _ => decide_eq_true_iff
  refine ⟨herr, ?_⟩
  by_cases hfault : ∃ file ∈ files, (run d styled ["check", file]).exitCode = 1
  · rw [if_pos (hsome.mpr hfault)] at hcode hout
    exact ⟨iff_of_true hcode hfault, fun _ => hout, fun hne => absurd hcode hne⟩
  · rw [if_neg (mt hsome.mp hfault)] at hcode hout
    have hne : (run d styled ("check" :: files)).exitCode ≠ 1 := fun hone =>
      Nat.zero_ne_one (hcode.symm.trans hone)
    exact ⟨iff_of_false hne hfault, fun hone => absurd hone hne, fun _ => ⟨hcode, hout⟩⟩

/-- A file without a fault and one with a fault. -/
def pairDisk : Disk where
  working := []
  root := .directory [("a", .file "f() \x7b \x7d".toUTF8), ("b", .file "f() \x7b ! \x7d".toUTF8)]

theorem isReadable_of_findText (text : String) (h : d.findText file = .ok (.file text.toUTF8))
    (hlength : text.toList.length ≤ Text.maxRow) : d.IsReadable file :=
  ⟨_, text, h, fromUTF8?_toByteArray text, hlength⟩

/-- The faulty file is given twice, under two names. -/
theorem check_independent_twice :
    (["b", "./b", "a"] : List String) ≠ [] ∧
    (∀ file ∈ ["b", "./b", "a"], file.toList.head? ≠ some '-' ∧ pairDisk.IsReadable file) ∧
    (run pairDisk false ["check", "b", "./b", "a"]).exitCode = 1 ∧
    (run pairDisk false ["check", "b", "./b", "a"]).shell.out = "" ∧
    (run pairDisk false ["check", "b", "./b", "a"]).shell.err =
      (run pairDisk false ["check", "b"]).shell.err ++
        ((run pairDisk false ["check", "./b"]).shell.err ++
          (run pairDisk false ["check", "a"]).shell.err) := by
  have hfiles : ∀ file ∈ ["b", "./b", "a"],
      file.toList.head? ≠ some '-' ∧ pairDisk.IsReadable file := by
    intro file hfile
    rcases List.mem_cons.mp hfile with rfl | hfile
    · exact ⟨by decide, isReadable_of_findText "f() \x7b ! \x7d" rfl (by decide)⟩
    rcases List.mem_cons.mp hfile with rfl | hfile
    · exact ⟨by decide, isReadable_of_findText "f() \x7b ! \x7d" rfl (by decide)⟩
    obtain rfl := List.mem_singleton.mp hfile
    exact ⟨by decide, isReadable_of_findText "f() \x7b \x7d" rfl (by decide)⟩
  have hcode : (run pairDisk false ["check", "b", "./b", "a"]).exitCode = 1 := by decide +kernel
  obtain ⟨herr, -, hout, -⟩ :=
    check_independent pairDisk false (List.cons_ne_nil "b" ["./b", "a"]) hfiles
  refine ⟨List.cons_ne_nil _ _, hfiles, hcode, hout hcode, herr.trans ?_⟩
  simp

end Runs

end CommandLine

end KestrelCompiler
