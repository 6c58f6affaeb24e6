import KestrelCompiler.Proofs.CommandLine.Build
import KestrelCompiler.Proofs.Disk.Naming
import KestrelCompiler.Proofs.Emission.Run
import KestrelCompiler.Proofs.Grammar.Unambiguity
import KestrelCompiler.Proofs.Report.History

/-!
What becomes of the source files. Checking and viewing leave the disk as it is. A build writes
beside its source file, and over it when the name of the source has the suffix of a module already.
-/

namespace KestrelCompiler.CommandLine

open Shell

/-- The action leaves the disk as it is. -/
def Spares {α : Type} (x : Action α) : Prop :=
  ∀ s, (x s).2.disk = s.disk

section Spares

variable {α β : Type} {x : Action α} {f : α → Action β}

theorem Quiet.spares (h : Quiet x) : Spares x :=
  fun s => (h s).1.disk

theorem spares_bind (hx : Spares x) (hf : ∀ a, Spares (f a)) : Spares (x >>= f) := by
  intro s
  have hs := hx s
  rcases hrun : x s with ⟨stop | a, s₁⟩
  · rw [hrun] at hs
    rw [Step.bind_of_error hrun]
    exact hs
  · rw [hrun] at hs
    rw [Step.bind_of_ok hrun]
    exact (hf a s₁).trans hs

theorem spares_print (text : String) : Spares (print text) :=
  fun _ => rfl

theorem spares_exit (code : Nat) : Spares (exit code : Action α) :=
  fun _ => rfl

theorem spares_printLines (lines : List String) : Spares (printLines lines) := by
  induction lines with
  | nil => exact (quiet_pure _).spares
  | cons line rest ih => exact spares_bind (spares_print line) fun _ => ih

theorem spares_check (files : List String) : Spares (check files) := by
  refine spares_bind (quiet_checkAll files).spares fun failed => ?_
  cases failed with
  | true => exact spares_bind (spares_exit 1) fun _ => spares_print _
  | false => exact spares_print _

theorem spares_view (file : String) : Spares (view file) :=
  spares_bind (quiet_requireProgram _).spares fun _ => spares_printLines _

theorem spares_answerInquiry (l : Level) (given : List Given) :
    Spares (answerInquiry l given) := by
  rw [answerInquiry]
  split
  · exact (quiet_pure _).spares
  · exact spares_bind (spares_print _) fun _ => spares_exit 0

theorem spares_readLevel (l : Level) (mixed : Bool) (args : List String) :
    Spares (readLevel l mixed args) := by
  rw [readLevel]
  split
  · exact (quiet_usageError l _).spares
  · exact spares_bind (spares_answerInquiry l _) fun _ => (quiet_pure _).spares

theorem spares_perform {c : Command} (hc : c ≠ .build) (output : Option String)
    (files : List String) : Spares (perform output c files) := by
  cases files with
  | nil => exact (quiet_usageError _ _).spares
  | cons file rest =>
      cases c with
      | check =>
          exact spares_bind (quiet_requireFiles _ _).spares fun _ => spares_check (file :: rest)
      | view =>
          exact spares_bind (quiet_requireFile _ file).spares fun _ =>
            spares_bind (quiet_requireNone _ rest).spares fun _ => spares_view file
      | build => exact absurd rfl hc

/-- Only a build changes the disk. -/
theorem spares_runCommand {c : Command} (hc : c ≠ .build) (rest : List String) :
    Spares (runCommand c rest) := by
  rw [runCommand_eq]
  exact spares_bind (spares_readLevel _ _ rest) fun _ =>
    spares_bind (quiet_checkOutput _).spares fun _ => spares_perform hc _ _

end Spares

end KestrelCompiler.CommandLine

namespace KestrelCompiler

open KestrelCompiler.Derivation Position

/-- A program begins with a name. -/
theorem Program.head_of_parse {source : String} {program : Program} {c : Char} {rest : List Char}
    (h : Program.parse source = .ok program) (hsource : source.toList = c :: rest) :
    Text.isBlank c = true ∨ isIdentChar c = true := by
  obtain ⟨declarations⟩ := program
  obtain ⟨spans, q, hderives, hblank⟩ := Program.derives_of_parse h
  cases hderives with
  | none =>
      left
      rw [start, hsource] at hblank
      exact hblank c List.mem_cons_self
  | more hdeclaration _ =>
      cases hdeclaration with
      | mk hname _ _ =>
          obtain ⟨word, ⟨hne, haccepts, -⟩, ⟨blanks, hblanks, hstart, -⟩, -⟩ := hname
          rw [start, hsource] at hstart
          rcases blanks with _ | ⟨blank, blanks⟩
          · obtain ⟨first, word, rfl⟩ := List.exists_cons_of_ne_nil hne
            cases hstart
            exact .inr (haccepts c List.mem_cons_self)
          · cases hstart
            exact .inl (hblanks c List.mem_cons_self)

/-- A module begins with a comment. -/
theorem Ir.Module.exists_render (m : Module) : ∃ rest, m.render.toList = ';' :: rest := by
  rw [render, List.append_assoc, List.cons_append, String.intercalate_cons_of_ne_nil (by simp)]
  simp only [String.toList_append]
  exact ⟨_, rfl⟩

namespace CommandLine

variable {d : Disk} {path : Path} {text : String}

/-- What a source compiles to is another text than the source. -/
theorem Compiles.read_ne (h : Compiles d path text) : d.read path ≠ .ok text.toUTF8 := by
  obtain ⟨source, program, config, ⟨bytes, text', hread, htext, rfl⟩, hparse, -, e, hemit, -⟩ := h
  intro hsame
  cases hread.symm.trans hsame
  cases htext.symm.trans (fromUTF8?_toByteArray text)
  obtain ⟨rest, hrest⟩ := e.module.exists_render
  rw [← Emitter.text_of_emit hemit] at hrest
  have hsource : (String.ofList (Text.unifyBreaks text.toList)).toList =
      ';' :: Text.unifyBreaks rest := by
    rw [String.toList_ofList, hrest, Text.unifyBreaks.eq_4]
    all_goals simp
  -- no program begins with a semicolon
  rcases Program.head_of_parse hparse hsource with hblank | hident
  · cases hblank
  · cases hident

/-- A run of a command leaves a source file as it was, unless it is a build that succeeds and the
name of the file has the suffix of a module. -/
theorem source_kept_iff {d : Disk} (hd : d.sight? d.working = some .directory) (styled : Bool)
    {args files : List String} {c : Command} {file : String} {bytes : ByteArray}
    (h : Requests args c files none) (hfile : file ∈ files)
    (hfind : d.find (.ofString file) = .ok (.file bytes)) :
    (run d styled args).shell.disk.find (.ofString file) = .ok (.file bytes) ↔
      ¬ (c = .build ∧ (Path.splitSuffix (Path.ofString file).name).2 = ".ll" ∧
        (run d styled args).exitCode = 0) := by
  by_cases hc : c = .build
  · subst hc
    obtain ⟨first, extra, rfl⟩ := List.exists_cons_of_ne_nil (List.ne_nil_of_mem hfile)
    rcases run_build_cases h d styled with ⟨hcode, hdisk⟩ | ⟨rfl, hcode, hbuilt⟩
    · rw [hdisk]
      exact iff_of_true hfind fun ⟨_, _, hzero⟩ => hcode hzero
    obtain rfl := List.mem_singleton.mp hfile
    obtain ⟨⟨text, hcompiles, hwrite⟩, -, -⟩ := hbuilt
    -- the one file that is written is the source itself, or another one beside it
    rw [(Disk.writes_of_write hd hwrite).find_withSuffix hd (by decide)
      (fun part hpart => (List.mem_filter.mp hpart).2) hfind]
    by_cases hsuffix : (Path.splitSuffix (Path.ofString file).name).2 = ".ll"
    · rw [if_pos hsuffix]
      refine iff_of_false (fun hsame => ?_) (fun hnot => hnot ⟨rfl, hsuffix, hcode⟩)
      cases hsame
      exact hcompiles.read_ne (Disk.read_eq_ok_iff.mpr hfind)
    · rw [if_neg hsuffix]
      exact iff_of_true rfl fun ⟨_, hsame, _⟩ => hsuffix hsame
  · have hdisk : (run d styled args).shell.disk = d := by
      obtain ⟨general, rest, hrun⟩ := h.exists_rest
      rw [run_shell, hrun]
      exact spares_runCommand hc rest _
    rw [hdisk]
    exact iff_of_true hfind fun ⟨hbuild, _⟩ => hc hbuild

theorem source_kept_iff_beside :
    (diskOf "a.kst" idleSource).find (.ofString "a.kst") = .ok (.file idleSource.toUTF8) ∧
    (run (diskOf "a.kst" idleSource) false ["build", "a.kst"]).exitCode = 0 ∧
    (run (diskOf "a.kst" idleSource) false ["build", "a.kst"]).shell.disk.find (.ofString "a.kst") =
      .ok (.file idleSource.toUTF8) := by
  have hfind : (diskOf "a.kst" idleSource).find (.ofString "a.kst") =
      .ok (.file idleSource.toUTF8) := rfl
  have hcode : (run (diskOf "a.kst" idleSource) false ["build", "a.kst"]).exitCode = 0 := by
    decide +kernel
  have hsuffix : (Path.splitSuffix (Path.ofString "a.kst").name).2 ≠ ".ll" := by decide +kernel
  exact ⟨hfind, hcode, (source_kept_iff (d := diskOf "a.kst" idleSource) rfl false
    (requests_of_files .build (by decide)) List.mem_cons_self hfind).mpr fun h => hsuffix h.2.1⟩

/-- A build writes the module over a source file with the suffix of a module. -/
theorem source_overwritten :
    Requests ["build", "a.ll"] .build ["a.ll"] none ∧
    (diskOf "a.ll" idleSource).find (.ofString "a.ll") = .ok (.file idleSource.toUTF8) ∧
    (run (diskOf "a.ll" idleSource) false ["build", "a.ll"]).exitCode = 0 ∧
    (run (diskOf "a.ll" idleSource) false ["build", "a.ll"]).shell.disk.find (.ofString "a.ll") ≠
      .ok (.file idleSource.toUTF8) := by
  refine ⟨requests_of_files .build (by decide), rfl, by decide +kernel, fun hsame => ?_⟩
  have hread := Disk.read_eq_ok_iff.mpr hsame
  have hother : ((run (diskOf "a.ll" idleSource) false ["build", "a.ll"]).shell.disk.read
      (.ofString "a.ll")).toOption.map ByteArray.data ≠ some idleSource.toUTF8.data := by
    decide +kernel
  rw [hread] at hother
  exact hother rfl

end CommandLine

end KestrelCompiler
