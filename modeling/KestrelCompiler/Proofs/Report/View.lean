import KestrelCompiler.Proofs.Disk.Writing
import KestrelCompiler.Proofs.Report.History

/-!
What a reporter shows of a file. A source that was added counts before the disk, and the latest one
before all others. Otherwise the first look at the file that can read it decides, and what is
written later is not seen any more.
-/

namespace KestrelCompiler

namespace Reporter

variable {r : Reporter} {d : Disk} {filename other : String} {lines : List String}

/-- The lines that a reporter knows of a file. -/
def known? (r : Reporter) (filename : String) : Option (List String) :=
  r.sources.lookup filename

theorem known?_register (r : Reporter) (filename other : String) (lines : List String) :
    (r.register filename lines).known? other =
      if other = filename then some lines else r.known? other := by
  rw [known?, register, List.lookup_cons]
  split
  · next h => rw [if_pos (beq_iff_eq.mp h)]
  · next h => rw [if_neg (beq_eq_false_iff_ne.mp h)]; rfl

/-- A look at a file shows what is known of it, or else what is on the disk. -/
theorem linesOf_fst (r : Reporter) (d : Disk) (filename : String) :
    (r.linesOf d filename).1 = (r.known? filename).elim (readLines d filename) .ok := by
  rw [linesOf, known?]
  cases r.sources.lookup filename with
  | some lines => rfl
  | none => cases readLines d filename <;> rfl

/-- A look at a file makes it known, unless it cannot be read. -/
theorem known?_linesOf (r : Reporter) (d : Disk) (filename other : String) :
    (r.linesOf d filename).2.known? other =
      (r.known? other).or (if other = filename then (readLines d other).toOption else none) := by
  by_cases h : other = filename
  · subst h
    rw [if_pos rfl]
    unfold linesOf known?
    cases hknown : r.sources.lookup other with
    | some lines => exact hknown
    | none =>
        cases readLines d other with
        | error e => exact hknown
        | ok lines => exact List.lookup_cons_self
  · rw [if_neg h, Option.or_none]
    unfold linesOf
    split
    · rfl
    · split
      · rw [known?_register, if_neg h]
      · rfl

theorem linesOf_of_known (h : r.known? filename = some lines) (d : Disk) :
    r.linesOf d filename = (.ok lines, r) := by
  rw [known?] at h
  rw [linesOf, h]

theorem known?_of_linesOf (h : (r.linesOf d filename).1 = .ok lines) :
    (r.linesOf d filename).2.known? filename = some lines := by
  rw [linesOf_fst] at h
  rw [known?_linesOf, if_pos rfl]
  cases hknown : r.known? filename with
  | some known =>
      rw [hknown] at h
      cases h
      rfl
  | none =>
      rw [hknown, Option.elim_none] at h
      rw [h]
      rfl

/-- A look at a file that cannot be read leaves nothing behind. -/
theorem linesOf_snd_of_error {e : Failure} (h : (r.linesOf d filename).1 = .error e) :
    (r.linesOf d filename).2 = r := by
  unfold linesOf at h ⊢
  cases hlookup : r.sources.lookup filename with
  | some lines => rfl
  | none =>
      rw [hlookup] at h
      cases hread : readLines d filename with
      | error e => rfl
      | ok lines =>
          rw [hread] at h
          cases h

theorem color_linesOf (r : Reporter) (d : Disk) (filename : String) :
    (r.linesOf d filename).2.color = r.color := by
  unfold linesOf
  split
  · rfl
  · split <;> rfl

/-- The lines for all places of a file that has these lines. -/
def allLines (color : Bool) (filename : String) (lines : List String) :
    List Label → Except Failure (List String)
  | [] => .ok []
  | l :: rest => do
    let shown ← labelLines color filename lines l
    let others ← allLines color filename lines rest
    .ok (shown ++ others)

/-- The report on a diagnostic whose file has these lines. Without places it needs no lines. -/
def showing (color : Bool) (lines : Except Failure (List String)) (diagnostic : Diagnostic) :
    Except Failure String := do
  let shown ← if diagnostic.labels.isEmpty then .ok []
    else lines >>= fun lines => allLines color diagnostic.filename lines diagnostic.labels
  .ok ("\n".intercalate
    (header color diagnostic :: shown ++ diagnostic.notes.map (noteLine color)))

theorem showing_of_no_labels (color : Bool) {diagnostic : Diagnostic}
    (h : diagnostic.labels.isEmpty = true) (lines lines' : Except Failure (List String)) :
    showing color lines diagnostic = showing color lines' diagnostic := by
  rw [showing, showing, h, if_pos rfl, if_pos rfl]

theorem labelsLines_of_known (h : r.known? filename = some lines) (d : Disk) (labels : List Label) :
    r.labelsLines d filename labels = (allLines r.color filename lines labels, r) := by
  induction labels with
  | nil => rfl
  | cons l rest ih =>
      rw [labelsLines, linesOf_of_known h, allLines]
      dsimp only
      cases labelLines r.color filename lines l with
      | error e => rfl
      | ok shown =>
          rw [ih]
          cases allLines r.color filename lines rest <;> rfl

theorem labelsLines_cons (r : Reporter) (d : Disk) (filename : String) (l : Label)
    (rest : List Label) : r.labelsLines d filename (l :: rest) =
      ((r.linesOf d filename).1 >>= fun lines => allLines r.color filename lines (l :: rest),
        (r.linesOf d filename).2) := by
  rcases hlines : r.linesOf d filename with ⟨e | lines, r'⟩
  · rw [labelsLines, hlines]
    rfl
  · have hknown : r'.known? filename = some lines := by
      have h := known?_of_linesOf (congrArg Prod.fst hlines)
      rwa [hlines] at h
    have hcolor : r'.color = r.color := by
      have h := color_linesOf r d filename
      rwa [hlines] at h
    -- only the first look may read the disk, so that it can as well have been before
    have hsame : r.labelsLines d filename (l :: rest) = r'.labelsLines d filename (l :: rest) := by
      rw [labelsLines, labelsLines, hlines, linesOf_of_known hknown]
    rw [hsame, labelsLines_of_known hknown, hcolor]
    rfl

theorem render_eq (r : Reporter) (d : Disk) (diagnostic : Diagnostic) :
    r.render d diagnostic = (showing r.color (r.linesOf d diagnostic.filename).1 diagnostic,
      if diagnostic.labels.isEmpty then r else (r.linesOf d diagnostic.filename).2) := by
  unfold render showing
  cases hlabels : diagnostic.labels with
  | nil => rfl
  | cons l rest =>
      rw [labelsLines_cons, List.isEmpty_cons, if_neg Bool.false_ne_true,
        if_neg Bool.false_ne_true]
      rw [← color_linesOf r d diagnostic.filename]
      generalize (r.linesOf d diagnostic.filename).1 >>= _ = shown
      cases shown <;> rfl

theorem color_render (r : Reporter) (d : Disk) (diagnostic : Diagnostic) :
    (r.render d diagnostic).2.color = r.color := by
  rw [render_eq]
  dsimp only
  split
  · rfl
  · exact color_linesOf ..

end Reporter

namespace Reporting

/-- What is left of a disk when only the written files count. -/
def Command.change (d : Disk) : Command → Disk
  | addSource _ _ => d
  | writeFile filename bytes => (d.install (.ofString filename) bytes).2
  | render _ => d

/-- The source that a command adds for a file. -/
def Command.added? (f : String) : Command → Option String
  | addSource filename source => if f = filename then some source else none
  | writeFile _ _ => none
  | render _ => none

/-- A rendering looks at the file of its diagnostic if that points anywhere. -/
def Command.looksAt (f : String) : Command → Bool
  | addSource _ _ => false
  | writeFile _ _ => false
  | render diagnostic => f = diagnostic.filename && !diagnostic.labels.isEmpty

/-- The disk behind some commands. -/
def diskAfter (d : Disk) (commands : List Command) : Disk :=
  commands.foldl Command.change d

/-- The latest source that was added for a file. -/
def latest? (f : String) (commands : List Command) : Option String :=
  (commands.filterMap (·.added? f)).getLast?

/-- What the looks at a file find on the disk, each at its own time. -/
def looks (f : String) (d : Disk) : List Command → List (Except Failure (List String))
  | [] => []
  | command :: rest =>
    (if command.looksAt f then [Reporter.readLines d f] else []) ++ looks f (command.change d) rest

/-- The lines that the first look at a file finds that can read it. -/
def firstRead? (f : String) (d : Disk) (commands : List Command) : Option (List String) :=
  (looks f d commands).findSome? Except.toOption

/-- The lines of a file that are settled by some commands, whatever is on the disk. -/
def settled? (f : String) (d : Disk) (commands : List Command) : Option (List String) :=
  ((latest? f commands).map Text.splitLines).or (firstRead? f d commands)

/-- The lines of a file that a rendering behind some commands works with. -/
def view (f : String) (d : Disk) (commands : List Command) : Except Failure (List String) :=
  (settled? f d commands).elim (Reporter.readLines (diskAfter d commands) f) .ok

section History

variable (f : String) (d : Disk) (command : Command) (rest : List Command)

theorem diskAfter_cons : diskAfter d (command :: rest) = diskAfter (command.change d) rest :=
  List.foldl_cons ..

theorem latest?_cons : latest? f (command :: rest) = (latest? f rest).or (command.added? f) := by
  rw [latest?, latest?, List.filterMap_cons]
  cases command.added? f with
  | none => rw [Option.or_none]
  | some source =>
      dsimp only
      rw [List.getLast?_cons]
      cases (List.filterMap (·.added? f) rest).getLast? <;> rfl

theorem firstRead?_cons : firstRead? f d (command :: rest) =
    (if command.looksAt f then (Reporter.readLines d f).toOption else none).or
      (firstRead? f (command.change d) rest) := by
  rw [firstRead?, looks, List.findSome?_append, firstRead?]
  split
  · rw [List.findSome?_singleton]
  · rfl

end History

variable {f : String} {s : Reporting}

theorem disk_perform (s : Reporting) (command : Command) :
    (s.perform command).2.disk = command.change s.disk := by
  cases command with
  | addSource filename source => rw [perform_addSource, Command.change]
  | writeFile filename bytes => rw [perform_writeFile, Command.change]
  | render diagnostic => rw [perform_render, Command.change]

theorem known?_perform (s : Reporting) (command : Command) (f : String) :
    (s.perform command).2.reporter.known? f = ((command.added? f).map Text.splitLines).or
      ((s.reporter.known? f).or
        (if command.looksAt f then (Reporter.readLines s.disk f).toOption else none)) := by
  cases command with
  | addSource filename source =>
      rw [perform_addSource, Command.added?, Command.looksAt, Reporter.addSource,
        Reporter.known?_register]
      split <;> simp
  | writeFile filename bytes =>
      rw [perform_writeFile, Command.added?, Command.looksAt]
      simp
  | render diagnostic =>
      rw [perform_render, Reporter.render_eq, Command.added?, Command.looksAt]
      cases diagnostic.labels.isEmpty with
      | true => simp
      | false => simp [Reporter.known?_linesOf]

theorem color_perform (s : Reporting) (command : Command) :
    (s.perform command).2.reporter.color = s.reporter.color := by
  cases command with
  | addSource filename source => rfl
  | writeFile filename bytes => rw [perform_writeFile]
  | render diagnostic =>
      rw [perform_render, Reporter.render_eq]
      dsimp only
      split
      · rfl
      · exact Reporter.color_linesOf ..

theorem known?_after (s : Reporting) (commands : List Command) (f : String) :
    (s.after commands).reporter.known? f = ((latest? f commands).map Text.splitLines).or
      ((s.reporter.known? f).or (firstRead? f s.disk commands)) := by
  induction commands generalizing s with
  | nil => exact (Option.or_none).symm
  | cons command rest ih =>
      -- a later source takes the place of what is known, a later look does not
      rw [after, List.foldl_cons, ← after, ih, known?_perform, disk_perform, latest?_cons,
        firstRead?_cons, Option.map_or]
      simp only [Option.or_assoc]

theorem disk_after (s : Reporting) (commands : List Command) :
    (s.after commands).disk = diskAfter s.disk commands := by
  induction commands generalizing s with
  | nil => rfl
  | cons command rest ih =>
      rw [after, List.foldl_cons, ← after, ih, disk_perform, diskAfter_cons]

theorem color_after (s : Reporting) (commands : List Command) :
    (s.after commands).reporter.color = s.reporter.color := by
  induction commands generalizing s with
  | nil => rfl
  | cons command rest ih => rw [after, List.foldl_cons, ← after, ih, color_perform]

theorem known?_start (color : Bool) (d : Disk) (commands : List Command) (f : String) :
    (after ⟨{ color }, d⟩ commands).reporter.known? f = settled? f d commands :=
  known?_after _ commands f

/-- A look at a file finds the lines that the history has led to. -/
theorem linesOf_after (color : Bool) (d : Disk) (commands : List Command) (f : String) :
    ((after ⟨{ color }, d⟩ commands).reporter.linesOf (after ⟨{ color }, d⟩ commands).disk f).1 =
      view f d commands := by
  rw [Reporter.linesOf_fst, known?_start, disk_after]
  rfl

/-- A rendering works with the lines that the history has led to. -/
theorem render_after (color : Bool) (d : Disk) (commands : List Command)
    (diagnostic : Diagnostic) :
    ((after ⟨{ color }, d⟩ commands).reporter.render (after ⟨{ color }, d⟩ commands).disk
        diagnostic).1 =
      Reporter.showing color (view diagnostic.filename d commands) diagnostic := by
  rw [Reporter.render_eq, linesOf_after, color_after]

/-- A rendering that cannot read the file leaves the reporter as it was. -/
theorem render_of_unreadable (color : Bool) {d : Disk} {commands : List Command}
    {diagnostic : Diagnostic} (h : view diagnostic.filename d commands = .error .encoding) :
    ((after ⟨{ color }, d⟩ commands).reporter.render (after ⟨{ color }, d⟩ commands).disk
        diagnostic).2 = (after ⟨{ color }, d⟩ commands).reporter := by
  rw [← linesOf_after color] at h
  rw [Reporter.render_eq, Reporter.linesOf_snd_of_error h, ite_self]

section Append

variable (f : String) (d : Disk) (before rest : List Command)

theorem diskAfter_append : diskAfter d (before ++ rest) = diskAfter (diskAfter d before) rest :=
  List.foldl_append

theorem latest?_append : latest? f (before ++ rest) = (latest? f rest).or (latest? f before) := by
  rw [latest?, List.filterMap_append, List.getLast?_append]
  rfl

theorem firstRead?_append : firstRead? f d (before ++ rest) =
    (firstRead? f d before).or (firstRead? f (diskAfter d before) rest) := by
  induction before generalizing d with
  | nil => rfl
  | cons command before ih =>
      rw [List.cons_append, firstRead?_cons, firstRead?_cons, ih, Option.or_assoc]
      rfl

end Append

/-- A command on another file. Writing is left out, since a file may be written by another name. -/
def Command.Elsewhere (f : String) : Command → Prop
  | addSource filename _ => f ≠ filename
  | writeFile _ _ => False
  | render diagnostic => f ≠ diagnostic.filename

variable {d : Disk} {command : Command} {lines : List String}

/-- Without a command on another file everything is shown alike. -/
theorem view_of_elsewhere (h : command.Elsewhere f) (before rest : List Command) :
    view f d (before ++ command :: rest) = view f d (before ++ rest) := by
  have hadded : command.added? f = none := by
    cases command with
    | addSource filename source => exact if_neg h
    | writeFile _ _ => rfl
    | render _ => rfl
  have hlooks : command.looksAt f = false := by
    cases command with
    | addSource _ _ => rfl
    | writeFile _ _ => rfl
    | render diagnostic => exact Bool.and_eq_false_iff.mpr (.inl (decide_eq_false h))
  have hchange : ∀ d, command.change d = d := by
    cases command with
    | addSource _ _ => exact fun _ => rfl
    | writeFile _ _ => exact h.elim
    | render _ => exact fun _ => rfl
  have hlatest : latest? f (before ++ command :: rest) = latest? f (before ++ rest) := by
    rw [latest?_append, latest?_cons, hadded, Option.or_none, latest?_append]
  have hread : firstRead? f d (before ++ command :: rest) = firstRead? f d (before ++ rest) := by
    rw [firstRead?_append, firstRead?_cons, hlooks, hchange, firstRead?_append]
    rfl
  have hdisk : diskAfter d (before ++ command :: rest) = diskAfter d (before ++ rest) := by
    rw [diskAfter_append, diskAfter_append, diskAfter, List.foldl_cons, hchange]
    rfl
  rw [view, settled?, hlatest, hread, hdisk]
  rfl

/-- What is settled stays so until a source is added. -/
theorem settled?_append {before rest : List Command} (h : settled? f d before = some lines)
    (hadded : ∀ command ∈ rest, command.added? f = none) :
    settled? f d (before ++ rest) = some lines := by
  have hnone : latest? f rest = none := by
    rw [latest?, List.filterMap_eq_nil_iff.mpr hadded]
    rfl
  rw [settled?, latest?_append, hnone, firstRead?_append, Option.none_or, ← Option.or_assoc,
    ← settled?, h]
  rfl

/-- A look that can read the file settles what it sees. -/
theorem settled?_render {commands : List Command} {diagnostic : Diagnostic}
    (hlabels : diagnostic.labels.isEmpty = false)
    (h : view diagnostic.filename d commands = .ok lines) :
    settled? diagnostic.filename d (commands ++ [.render diagnostic]) = some lines := by
  cases hsettled : settled? diagnostic.filename d commands with
  | some known =>
      rw [view, hsettled] at h
      cases h
      exact settled?_append hsettled (List.forall_mem_singleton.mpr rfl)
  | none =>
      rw [view, hsettled, Option.elim_none] at h
      have hlooks : (Command.render diagnostic).looksAt diagnostic.filename = true := by
        simp [Command.looksAt, hlabels]
      obtain ⟨hlatest, hfirst⟩ := Option.or_eq_none_iff.mp hsettled
      rw [settled?, latest?_append, Option.map_eq_none_iff.mp hlatest, firstRead?_append, hfirst,
        firstRead?_cons, hlooks, h]
      rfl

/-- Only a file that is not UTF-8 cannot be shown. -/
theorem eq_encoding_of_view {commands : List Command} {e : Failure}
    (h : view f d commands = .error e) : e = .encoding := by
  unfold view at h
  cases hsettled : settled? f d commands with
  | some lines =>
      rw [hsettled] at h
      cases h
  | none =>
      rw [hsettled, Option.elim_none] at h
      exact Reporter.eq_encoding_of_readLines h

/-- The same diagnostic is shown alike again, whatever was written or rendered in between. -/
theorem render_again (color : Bool) (d : Disk) (commands : List Command) (diagnostic : Diagnostic)
    {between : List Command}
    (hadded : ∀ command ∈ between, command.added? diagnostic.filename = none)
    (hshown : Reporter.showing color (view diagnostic.filename d commands) diagnostic ≠
      .error .encoding) :
    Reporter.showing color
        (view diagnostic.filename d (commands ++ .render diagnostic :: between)) diagnostic =
      Reporter.showing color (view diagnostic.filename d commands) diagnostic := by
  cases hlabels : diagnostic.labels.isEmpty with
  | true => exact Reporter.showing_of_no_labels color hlabels _ _
  | false =>
      cases hview : view diagnostic.filename d commands with
      | error e =>
          rw [hview, Reporter.showing, hlabels] at hshown
          obtain rfl := eq_encoding_of_view hview
          exact absurd rfl hshown
      | ok lines =>
          have hsettled := settled?_append (settled?_render hlabels hview) hadded
          rw [List.append_assoc, List.singleton_append] at hsettled
          rw [view, hsettled]
          rfl

section Write

theorem diskAfter_write (commands : List Command) (g : String) (bytes : ByteArray) :
    diskAfter d (commands ++ [.writeFile g bytes]) =
      ((diskAfter d commands).install (.ofString g) bytes).2 := by
  simp only [diskAfter, List.foldl_append, List.foldl_cons, List.foldl_nil, Command.change]

theorem sight?_working_after (hd : d.sight? d.working = some .directory)
    (commands : List Command) :
    (diskAfter d commands).sight? (diskAfter d commands).working = some .directory := by
  induction commands generalizing d with
  | nil => exact hd
  | cons command rest ih =>
      rw [diskAfter_cons]
      refine ih ?_
      cases command with
      | addSource _ _ => exact hd
      | render _ => exact hd
      | writeFile filename bytes =>
          have hrewrites := Disk.rewrites_install hd (.ofString filename) bytes
          rw [Command.change, hrewrites.working]
          exact hrewrites.keeps hd

/-- A write is seen only by a name that is not settled, and leads to what has changed. -/
theorem view_of_write (hd : d.sight? d.working = some .directory) (commands : List Command)
    (f g : String) (bytes : ByteArray) :
    view f d (commands ++ [.writeFile g bytes]) = view f d commands ∨
      settled? f d commands = none ∧
        (diskAfter d commands).Meets (diskAfter d (commands ++ [.writeFile g bytes]))
          (.ofString f) (.ofString g) := by
  have hsame : settled? f d (commands ++ [.writeFile g bytes]) = settled? f d commands := by
    rw [settled?, latest?_append, firstRead?_append]
    exact congrArg _ Option.or_none
  rw [view, hsame, view, diskAfter_write]
  cases settled? f d commands with
  | some lines => exact .inl (by rw [Option.elim_some, Option.elim_some])
  | none =>
      refine or_iff_not_imp_right.mpr fun hapart => ?_
      rw [and_iff_right rfl] at hapart
      have hrewrites := Disk.rewrites_install (sight?_working_after hd commands) (.ofString g) bytes
      rw [Option.elim_none, Option.elim_none]
      exact Reporter.readLines_of_find_iff (hrewrites.find_iff hapart)

end Write

/-- Each rendering shows the view that the history has led to, and that is stable. A file that could
not be read leaves nothing behind, commands on other files do not matter, a write changes a view
only before it is settled and where both names lead to what has changed, and a diagnostic is shown
alike again, unless its file could not be read. -/
theorem render_shows_view (color : Bool) {d : Disk} (hd : d.sight? d.working = some .directory)
    (commands : List Command) :
    let s := after ⟨{ color }, d⟩ commands
    (∀ diagnostic : Diagnostic, (s.reporter.render s.disk diagnostic).1 =
      Reporter.showing color (view diagnostic.filename d commands) diagnostic) ∧
    (∀ diagnostic : Diagnostic, view diagnostic.filename d commands = .error .encoding →
      (s.reporter.render s.disk diagnostic).2 = s.reporter) ∧
    (∀ (f : String) (command : Command) (rest : List Command), command.Elsewhere f →
      view f d (commands ++ command :: rest) = view f d (commands ++ rest)) ∧
    (∀ (f g : String) (bytes : ByteArray),
      view f d (commands ++ [.writeFile g bytes]) = view f d commands ∨
        settled? f d commands = none ∧
          (diskAfter d commands).Meets (diskAfter d (commands ++ [.writeFile g bytes]))
            (.ofString f) (.ofString g)) ∧
    ∀ (diagnostic : Diagnostic) (between : List Command),
      (∀ command ∈ between, command.added? diagnostic.filename = none) →
      (s.reporter.render s.disk diagnostic).1 ≠ .error .encoding →
      let again := (s.perform (.render diagnostic)).2.after between
      (again.reporter.render again.disk diagnostic).1 =
        (s.reporter.render s.disk diagnostic).1 := by
  refine ⟨render_after color d commands, fun _ => render_of_unreadable color,
    fun f command rest h => view_of_elsewhere h commands rest, view_of_write hd commands,
    fun diagnostic between hadded hshown => ?_⟩
  have hagain : ((after ⟨{ color }, d⟩ commands).perform (.render diagnostic)).2.after between =
      after ⟨{ color }, d⟩ (commands ++ .render diagnostic :: between) := by
    rw [after, after, after, List.foldl_append, List.foldl_cons]
  rw [render_after] at hshown ⊢
  dsimp only
  rw [hagain, render_after]
  exact render_again color d commands diagnostic hadded hshown

/-- A diagnostic that points to the start of a file. -/
def startDiagnostic : Diagnostic where
  code := "E200"
  message := "m"
  filename := "a"
  labels := [⟨⟨{}, {}⟩, ""⟩]

/-- An empty disk. -/
def emptyDisk : Disk :=
  ⟨[], .directory []⟩

/-- Behind a file that was written. -/
def writtenStart : Reporting :=
  after ⟨{ color := false }, emptyDisk⟩ [.writeFile "a" "x".toByteArray]

/-- A file is written again after it was shown. -/
theorem render_shows_view_rewritten :
    emptyDisk.sight? emptyDisk.working = some .directory ∧
    ∃ text, (writtenStart.reporter.render writtenStart.disk startDiagnostic).1 = .ok text ∧
      let again := (writtenStart.perform (.render startDiagnostic)).2.after
        [.writeFile "a" "y".toByteArray]
      (again.reporter.render again.disk startDiagnostic).1 = .ok text := by
  have hok : (writtenStart.reporter.render writtenStart.disk startDiagnostic).1.isOk = true := by
    decide +kernel
  have hd : emptyDisk.sight? emptyDisk.working = some .directory := rfl
  refine ⟨hd, ?_⟩
  rcases hshown : (writtenStart.reporter.render writtenStart.disk startDiagnostic).1 with e | text
  · rw [hshown] at hok
    cases hok
  · have hread : (writtenStart.reporter.render writtenStart.disk startDiagnostic).1 ≠
        .error .encoding := by
      rw [hshown]
      intro h
      cases h
    have hstable := render_shows_view false hd [.writeFile "a" "x".toByteArray]
    have hagain := hstable.2.2.2.2 startDiagnostic [.writeFile "a" "y".toByteArray]
      (List.forall_mem_singleton.mpr rfl) hread
    exact ⟨text, rfl, hagain.trans hshown⟩

/-- A file is written by another name than the one it is shown by. -/
theorem written_by_another_name :
    let start : Reporting := ⟨{ color := false }, emptyDisk⟩
    let s := start.after [.writeFile "./a" "x".toByteArray]
    "./a" ≠ startDiagnostic.filename ∧
    (start.reporter.render start.disk startDiagnostic).1.toOption =
      some "error[E200]: m\n  --> a:1:1\n     |" ∧
    (s.reporter.render s.disk startDiagnostic).1.toOption =
      some "error[E200]: m\n  --> a:1:1\n     |\n     1 | x\n     | ^" :=
  ⟨by decide, by decide +kernel, by decide +kernel⟩

end Reporting

end KestrelCompiler
