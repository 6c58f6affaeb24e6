import KestrelCompiler.Proofs.Faults.Emission
import KestrelCompiler.Proofs.Report.Lines
import KestrelCompiler.Report

/-!
Carets under problems. A problem of a source points into it. Its report shows the character at that
point, with a caret right below, as long as the points and the lines of the source are counted at
the same breaks; at other breaks the line that is shown is not the one that the problem stands on.
-/

namespace KestrelCompiler

open Location

/-- The problems of a source: what its reading stops at, or the emission of what was read. -/
inductive Program.Reports (source : String) : Problem → Prop
  | reading {p : Problem} : Program.parse source = .error p → Reports source p
  | emission {program : Program} {width : Nat} {name triple : String} {f : LoweringFault}
    {e : Emitter} : Program.parse source = .ok program →
    (Emitter.new program width name triple).emit = (.error f, e) → Reports source f.problem

theorem Program.exists_point_of_error {source : String} {p : Problem}
    (h : Program.parse source = .error p) :
    ∃ k ≤ source.toList.length, p.location = point source.toList k := by
  have hadds : Rule.Adds source.toList [] Rule.program fun program => program.part.tokens :=
    Rule.adds_program
  obtain ⟨j, -, hcursor, hplaced⟩ :=
    hadds 0 0 (.ofString source) (.ofString source) (Nat.le_refl 0)
  unfold parse at h
  rcases hrun : Rule.program (.ofString source) with ⟨program | - | problem, c⟩
  · rw [hrun] at h
    cases h
  · rw [hrun] at h hcursor
    cases h
    exact ⟨j, hcursor.le, hcursor.location⟩
  · rw [hrun] at h hplaced
    cases h
    exact hplaced

theorem Program.Reports.exists_point {source : String} {p : Problem} (h : Reports source p) :
    ∃ k ≤ source.toList.length, p.location = point source.toList k := by
  cases h with
  | reading herror => exact exists_point_of_error herror
  | @emission program width name triple f e hparse hemit =>
      obtain ⟨t, ht, hlocation⟩ := (Emitter.hasFault_of_emit (congrArg Prod.fst hemit)).starts
      obtain ⟨a, b, hab, hb, hspan⟩ := Program.between_of_parse hparse t ht
      refine ⟨a, by omega, ?_⟩
      rw [LoweringFault.problem, hlocation, hspan]
      rfl

namespace Text

theorem row_of_le (c : Char) {count : Int} (hnonneg : 0 ≤ count) (hle : count ≤ maxRow) :
    row c count = .ok (String.ofList (List.replicate count.toNat c)) := by
  have hmin : Int64.minValue.toInt = -9223372036854775808 := rfl
  have hmax : Int64.maxValue.toInt = 9223372036854775807 := rfl
  have hmemory : maxRow = 68719476736 := rfl
  have hfits : ¬ (count < Int64.minValue.toInt ∨ Int64.maxValue.toInt < (1 : Nat) * count) := by
    omega
  rw [row, checkRow, if_neg (by simpa using hfits), if_neg (by omega)]
  rfl

theorem getElem?_splitLines {text : String} {n : Nat} {line : List Char}
    (h : (lines text.toList)[n]? = some line) :
    (splitLines text)[n]? = some (String.ofList line) := by
  rw [splitLines, List.getElem?_map, h]
  rfl

end Text

namespace Reporter

/-- The line of a point, with a caret below that. -/
def pointed (color : Bool) (line : String) (l : Location) : List String :=
  [barred color (gutter l.line) (" " ++ line),
    barred color "  " (" " ++ spaces l.column.toNat ++ paint color Text.Style.boldRed "^")]

/-- The report shows the line of a point with a caret below that. -/
def Shows (color : Bool) (line : String) (l : Location) (report : String) : Prop :=
  ∃ before after, report = "\n".intercalate (before ++ pointed color line l ++ after)

theorem snippet_point (color : Bool) (line : String) {l : Location} (hcolumn : 0 ≤ l.column)
    (hrow : l.column ≤ Text.maxRow) :
    snippet color line ⟨l, l⟩ = .ok (pointed color line l) := by
  have hcarets : carets color ⟨l, l⟩ =
      .ok (" " ++ spaces l.column.toNat ++ paint color Text.Style.boldRed "^") := by
    have hone : max 1 (l.column - l.column) = 1 := by
      rw [Int.sub_self]
      rfl
    rw [carets, Text.row_of_le ' ' hcolumn hrow, hone, Text.row_of_le '^' (by decide) (by decide)]
    rfl
  rw [snippet, if_pos rfl, hcarets]
  rfl

/-- The lines of one place, around those that show it. -/
theorem labelLines_of_snippet {color : Bool} {lines shown : List String} {line : String} {s : Span}
    (filename hint : String) (hline : lineAt? lines s.start.line = some line)
    (hshown : snippet color line s = .ok shown) :
    ∃ before after, labelLines color filename lines ⟨s, hint⟩ = .ok (before ++ shown ++ after) := by
  simp only [labelLines, hline, hshown]
  exact ⟨_, _, rfl⟩

/-- The report of a problem has the lines that show its place. -/
theorem render_of_snippet (r : Reporter) (d : Disk) (p : Problem) (filename : String)
    {source line : String} {shown : List String}
    (hline : lineAt? (Text.splitLines source) p.location.line = some line)
    (hshown : snippet r.color line ⟨p.location, p.location⟩ = .ok shown) :
    ∃ before after, ((r.addSource filename source).render d (p.diagnostic filename)).1 =
      .ok ("\n".intercalate (before ++ shown ++ after)) := by
  have hlines : (r.addSource filename source).linesOf d filename =
      (.ok (Text.splitLines source), r.addSource filename source) := by
    rw [linesOf, addSource, register, List.lookup_cons_self]
  obtain ⟨before, after, hlabel⟩ := labelLines_of_snippet filename p.hint hline hshown
  have hlabels : (r.addSource filename source).labelsLines d filename
      [⟨⟨p.location, p.location⟩, p.hint⟩] =
        (.ok (before ++ shown ++ after ++ []), r.addSource filename source) := by
    rw [labelsLines, hlines]
    simp only [show (r.addSource filename source).color = r.color from rfl, hlabel]
    rfl
  refine ⟨header r.color (p.diagnostic filename) :: before,
    after ++ p.notes.map (noteLine r.color), ?_⟩
  rw [render, Problem.diagnostic, hlabels]
  simp [addSource, register]

end Reporter

/-- The caret stands below the character that the problem points at. -/
theorem Program.Reports.render_caret {source : String} {p : Problem} (h : Reports source p)
    {k : Nat} (hk : p.location.offset = k) {c : Char} (hc : source.toList[k]? = some c)
    (hbreak : c ∉ Text.lineBreaks) (hfeeds : Text.BreaksAreFeeds (source.toList.take k))
    (hrow : p.location.column ≤ Text.maxRow) (r : Reporter) (d : Disk) (filename : String) :
    ∃ line report, ((r.addSource filename source).render d (p.diagnostic filename)).1 =
        .ok report ∧
      Reporter.Shows r.color line p.location report ∧
      line.toList[p.location.column.toNat]? = some c := by
  obtain ⟨j, hj, hpoint⟩ := h.exists_point
  have hcounts := isPoint_point hj
  rw [← hpoint] at hcounts
  obtain rfl : j = k := Int.ofNat_inj.mp (hcounts.offset.symm.trans hk)
  obtain ⟨hlt, hget⟩ := List.getElem?_eq_some_iff.mp hc
  have hsplit : source.toList = source.toList.take j ++ c :: source.toList.drop (j + 1) := by
    rw [← hget, ← List.drop_eq_getElem_cons hlt, List.take_append_drop]
  obtain ⟨line, hline, hcolumn⟩ := Text.exists_line hbreak (source.toList.drop (j + 1))
    (source.toList.take j) hfeeds
  rw [← hsplit] at hline
  have hshown : Reporter.lineAt? (Text.splitLines source) p.location.line =
      some (String.ofList line) := by
    rw [Reporter.lineAt?, hcounts.line, if_pos (Int.natCast_nonneg _), Int.toNat_natCast]
    exact Text.getElem?_splitLines hline
  have hnonneg : 0 ≤ p.location.column := hcounts.column ▸ Int.natCast_nonneg _
  obtain ⟨before, after, hrender⟩ := r.render_of_snippet d p filename hshown
    (Reporter.snippet_point r.color _ hnonneg hrow)
  refine ⟨String.ofList line, _, hrender, ⟨before, after, rfl⟩, ?_⟩
  rw [hcounts.column, Int.toNat_natCast, String.toList_ofList]
  exact hcolumn

/-- The name stands on the second line, behind a carriage return and a line feed. -/
def feedSource : String :=
  "f() int \x7b\r\n  :n \x7d"

theorem Program.Reports.render_caret_feed : ∃ p line report, Reports feedSource p ∧
    p.location.offset = (14 : Nat) ∧ feedSource.toList[14]? = some 'n' ∧
    'n' ∉ Text.lineBreaks ∧ Text.BreaksAreFeeds (feedSource.toList.take 14) ∧
    p.location.column ≤ Text.maxRow ∧
    ((({ color := false } : Reporter).addSource "a" feedSource).render ⟨[], .directory []⟩
      (p.diagnostic "a")).1 = .ok report ∧
    Reporter.Shows false line p.location report ∧
    line.toList[p.location.column.toNat]? = some 'n' := by
  have hfault : ((Program.parse feedSource).toOption.any fun program =>
      stopsWith (·.location = ⟨14, 1, 3, 14⟩)
        (Emitter.new program 64 "main" unknownTriple).emit.1) = true := by decide +kernel
  obtain ⟨program, hparse, hprogram⟩ := Program.exists_parse_of_any hfault
  obtain ⟨f, hemit, hf⟩ := exists_of_stopsWith hprogram
  have hlocation : f.location = ⟨14, 1, 3, 14⟩ := of_decide_eq_true hf
  have hreports : Reports feedSource f.problem := .emission hparse (Prod.ext hemit rfl)
  have hoffset : f.problem.location.offset = (14 : Nat) := congrArg Location.offset hlocation
  have hcolumn : f.problem.location.column = 3 := congrArg Location.column hlocation
  have hrow : f.problem.location.column ≤ Text.maxRow := by
    rw [hcolumn]
    decide
  obtain ⟨line, report, hrender, hshows, hline⟩ := hreports.render_caret hoffset
    (c := 'n') (by decide) (by decide) (by decide) hrow { color := false } ⟨[], .directory []⟩ "a"
  exact ⟨f.problem, line, report, hreports, hoffset, by decide, by decide, by decide, hrow,
    hrender, hshows, hline⟩

/-- What a source is refused for. -/
def Program.problem? (source : String) : Option Problem :=
  match parse source with
  | .ok _ => none
  | .error p => some p

theorem Program.parse_of_problem? {source : String} {p : Problem}
    (h : problem? source = some p) : parse source = .error p := by
  cases hparse : parse source with
  | ok program =>
      rw [problem?, hparse] at h
      cases h
  | error p =>
      rw [problem?, hparse] at h
      obtain rfl := Option.some.inj h
      rfl

/-- A vertical tab ends a line for the report, but not for points. -/
def tabSource : String :=
  "\x0b!"

theorem render_loses_character : ∃ p, Program.parse tabSource = .error p ∧
    p.location.offset = 1 ∧ p.location.column = 1 ∧ tabSource.toList[1]? = some '!' ∧
    Reporter.lineAt? (Text.splitLines tabSource) p.location.line = some "" ∧
    ((({ color := false } : Reporter).addSource "a" tabSource).render ⟨[], .directory []⟩
      (p.diagnostic "a")).1.toOption =
        some "error[E200]: expected declaration\n  --> a:1:2\n     |\n     1 | \n     |  ^" := by
  have hproblem : Program.problem? tabSource =
      some (Expectation.declaration.problem ⟨1, 0, 1, 1⟩) := by decide +kernel
  exact ⟨_, Program.parse_of_problem? hproblem, rfl, rfl, by decide, by decide +kernel,
    by decide +kernel⟩

end KestrelCompiler
