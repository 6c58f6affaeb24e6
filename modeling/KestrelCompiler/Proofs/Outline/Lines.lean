import KestrelCompiler.Outline
import KestrelCompiler.Proofs.Grammar.Shape

/-!
Outlines as texts. At the left margin each line tells by its blanks how deep it stands, and so the
text of an outline tells the outline, as long as its lines are lines that begin with no blank.
-/

namespace KestrelCompiler

namespace Outline

/-- A text that takes one line and does not begin with a blank. -/
structure IsRow (line : String) : Prop where
  lineFeed : '\n' ∉ line.toList
  blank : line.toList.head? ≠ some ' '

mutual

/-- All lines of the outline are rows. -/
def Plain : Outline → Prop
  | .entry line parts => IsRow line ∧ PlainAll parts

def PlainAll : List Outline → Prop
  | [] => True
  | part :: rest => part.Plain ∧ PlainAll rest

end

mutual

/-- The lines in order, each with how deep it stands. -/
def rows (depth : Nat) : Outline → List (Nat × String)
  | .entry line parts => (depth, line) :: rowsAll (depth + 1) parts

def rowsAll (depth : Nat) : List Outline → List (Nat × String)
  | [] => []
  | part :: rest => rows depth part ++ rowsAll depth rest

end

/-- A line as it is written. -/
def row (entry : Nat × String) : String :=
  indent entry.1 ++ entry.2

section Rows

theorem indent_succ (depth : Nat) : indent (depth + 1 : Nat) = indent depth ++ "  " := by
  rw [indent, indent, Int.toNat_natCast, Int.toNat_natCast, Nat.mul_succ,
    ← List.replicate_append_replicate, String.ofList_append]
  rfl

mutual

theorem linesOf_eq (depth : Nat) : ∀ o : Outline, linesOf depth o = (rows depth o).map row
  | .entry line parts => by
    rw [linesOf, rows, List.map_cons, partLines_eq depth parts, row]

theorem partLines_eq (depth : Nat) : ∀ parts : List Outline,
    partLines depth parts = (rowsAll (depth + 1) parts).map row
  | [] => rfl
  | part :: rest => by
    rw [partLines, rowsAll, List.map_append, linesOfPart_eq depth part, partLines_eq depth rest]

theorem linesOfPart_eq (depth : Nat) : ∀ part : Outline,
    linesOfPart depth part = (rows (depth + 1) part).map row
  | .entry line items => by
    rw [linesOfPart, rows, List.map_cons, itemLines_eq depth items, row, indent_succ]

theorem itemLines_eq (depth : Nat) : ∀ items : List Outline,
    itemLines depth items = (rowsAll (depth + 2) items).map row
  | [] => rfl
  | item :: rest => by
    rw [itemLines, rowsAll, List.map_append, linesOfItem_eq depth item, itemLines_eq depth rest]

theorem linesOfItem_eq (depth : Nat) : ∀ item : Outline,
    linesOfItem depth item = (rows (depth + 2) item).map row
  | .entry word [] => by
    have hdeeper : indent (depth + 2 : Nat) = indent depth ++ "    " := by
      rw [indent_succ (depth + 1), indent_succ depth, String.append_assoc]
      rfl
    rw [linesOfItem, rows, rowsAll, List.map_singleton, row, hdeeper]
  | .entry line (part :: rest) => by
    have hpart := linesOfPart_eq (depth + 2) part
    have hrest := partLines_eq (depth + 2) rest
    rw [rows, rowsAll, List.map_cons, List.map_append, ← hpart, ← hrest, row, linesOfItem]
    rfl

end

/-- The rows behind a part stand no deeper than it does. -/
def Shallow (depth : Nat) (rows : List (Nat × String)) : Prop :=
  ∀ entry ∈ rows.head?, entry.1 ≤ depth

theorem shallow_rowsAll {depth : Nat} {rest : List (Nat × String)} (h : Shallow depth rest)
    (parts : List Outline) : Shallow depth (rowsAll depth parts ++ rest) := by
  cases parts with
  | nil => exact h
  | cons part parts =>
      obtain ⟨line, items⟩ := part
      intro entry hentry
      cases hentry
      exact Nat.le_refl depth

mutual

/-- How deep the lines stand tells where an outline ends. -/
theorem rows_inj {depth : Nat} {rest rest' : List (Nat × String)} (h : Shallow depth rest)
    (h' : Shallow depth rest') : ∀ o o' : Outline,
      rows depth o ++ rest = rows depth o' ++ rest' → o = o' ∧ rest = rest'
  | .entry line parts, .entry line' parts', heq => by
    rw [rows, rows, List.cons_append, List.cons_append, List.cons.injEq] at heq
    obtain ⟨hline, hrest⟩ := heq
    obtain ⟨rfl, rfl⟩ := rowsAll_inj h h' parts parts' hrest
    cases hline
    exact ⟨rfl, rfl⟩

theorem rowsAll_inj {depth : Nat} {rest rest' : List (Nat × String)} (h : Shallow depth rest)
    (h' : Shallow depth rest') : ∀ parts parts' : List Outline,
      rowsAll (depth + 1) parts ++ rest = rowsAll (depth + 1) parts' ++ rest' →
        parts = parts' ∧ rest = rest'
  | [], [], heq => ⟨rfl, heq⟩
  | [], .entry line items :: parts, heq => by
    obtain rfl : rest = (depth + 1, line) :: _ := heq
    exact absurd (h _ rfl) (Nat.not_succ_le_self depth)
  | .entry line items :: parts, [], heq => by
    obtain rfl : rest' = (depth + 1, line) :: _ := heq.symm
    exact absurd (h' _ rfl) (Nat.not_succ_le_self depth)
  | part :: parts, part' :: parts', heq => by
    rw [rowsAll, rowsAll, List.append_assoc, List.append_assoc] at heq
    have hdeeper : ∀ {rows}, Shallow depth rows → Shallow (depth + 1) rows :=
      fun h entry hentry => Nat.le_succ_of_le (h entry hentry)
    obtain ⟨rfl, hrest⟩ := rows_inj (shallow_rowsAll (hdeeper h) parts)
      (shallow_rowsAll (hdeeper h') parts') part part' heq
    obtain ⟨rfl, rfl⟩ := rowsAll_inj h h' parts parts' hrest
    exact ⟨rfl, rfl⟩

end

end Rows

section Text

/-- Words that are read up to the same kind of character are the same. -/
theorem append_inj_of_all {p : Char → Bool} {word word' after after' : List Char}
    (hword : ∀ c ∈ word, p c = true) (hword' : ∀ c ∈ word', p c = true)
    (hafter : ∀ c ∈ after.head?, p c = false) (hafter' : ∀ c ∈ after'.head?, p c = false)
    (h : word ++ after = word' ++ after') : word = word' ∧ after = after' := by
  obtain ⟨htake, hdrop⟩ := takeWhile_append_eq hword hafter
  obtain ⟨htake', hdrop'⟩ := takeWhile_append_eq hword' hafter'
  rw [h] at htake hdrop
  exact ⟨htake.symm.trans htake', hdrop.symm.trans hdrop'⟩

theorem row_inj {entry entry' : Nat × String} (h : IsRow entry.2) (h' : IsRow entry'.2)
    (heq : row entry = row entry') : entry = entry' := by
  obtain ⟨depth, line⟩ := entry
  obtain ⟨depth', line'⟩ := entry'
  have hlists := congrArg String.toList heq
  simp only [row, indent, String.toList_append, String.toList_ofList, Int.toNat_natCast] at hlists
  have hblanks : ∀ (n : Nat), ∀ c ∈ List.replicate n ' ', (c == ' ') = true := by
    intro n c hc
    rw [List.eq_of_mem_replicate hc]
    rfl
  have hhead : ∀ {line : String}, IsRow line → ∀ c ∈ line.toList.head?, (c == ' ') = false := by
    intro line hline c hc
    refine beq_false_of_ne fun hblank => hline.blank ?_
    rw [Option.mem_def.mp hc, hblank]
  obtain ⟨hdepth, hline⟩ :=
    append_inj_of_all (hblanks _) (hblanks _) (hhead h) (hhead h') hlists
  have hdepth : 2 * depth = 2 * depth' := by
    simpa using congrArg List.length hdepth
  rw [Prod.mk.injEq]
  exact ⟨by omega, String.toList_injective hline⟩

theorem map_row_inj {entries entries' : List (Nat × String)}
    (h : ∀ entry ∈ entries, IsRow entry.2) (h' : ∀ entry ∈ entries', IsRow entry.2)
    (heq : entries.map row = entries'.map row) : entries = entries' := by
  induction entries generalizing entries' with
  | nil => exact (List.map_eq_nil_iff.mp heq.symm).symm
  | cons entry rest ih =>
      cases entries' with
      | nil => cases heq
      | cons entry' rest' =>
          obtain ⟨hentry, hrest⟩ := List.forall_mem_cons.mp h
          obtain ⟨hentry', hrest'⟩ := List.forall_mem_cons.mp h'
          obtain ⟨hrow, hmore⟩ := List.cons.inj heq
          rw [row_inj hentry hentry' hrow, ih hrest hrest' hmore]

theorem line_inj {line line' after after' : List Char} (h : '\n' ∉ line) (h' : '\n' ∉ line')
    (heq : line ++ '\n' :: after = line' ++ '\n' :: after') : line = line' ∧ after = after' := by
  have hword : ∀ {line : List Char}, '\n' ∉ line → ∀ c ∈ line, (c != '\n') = true :=
    fun hline c hc => bne_iff_ne.mpr fun hfeed => hline (hfeed ▸ hc)
  have hfeed : ∀ (text : List Char), ∀ c ∈ ('\n' :: text).head?, (c != '\n') = false := by
    rintro text c ⟨⟩
    rfl
  obtain ⟨hsame, hmore⟩ :=
    append_inj_of_all (hword h) (hword h') (hfeed after) (hfeed after') heq
  exact ⟨hsame, (List.cons.inj hmore).2⟩

/-- Lines with a line feed after each are found again in the text. -/
theorem lines_inj {lines lines' : List String} (h : ∀ line ∈ lines, '\n' ∉ line.toList)
    (h' : ∀ line ∈ lines', '\n' ∉ line.toList)
    (heq : String.join (lines.map (· ++ "\n")) = String.join (lines'.map (· ++ "\n"))) :
    lines = lines' := by
  have hlists := congrArg String.toList heq
  simp only [String.toList_join, List.flatMap_map, String.toList_append] at hlists
  clear heq
  induction lines generalizing lines' with
  | nil =>
      cases lines' with
      | nil => rfl
      | cons line' rest' => simp at hlists
  | cons line rest ih =>
      cases lines' with
      | nil => simp at hlists
      | cons line' rest' =>
          obtain ⟨hline, hrest⟩ := List.forall_mem_cons.mp h
          obtain ⟨hline', hrest'⟩ := List.forall_mem_cons.mp h'
          simp only [List.flatMap_cons, List.append_assoc] at hlists
          obtain ⟨hsame, hmore⟩ := line_inj hline hline' hlists
          rw [String.toList_injective hsame, ih hrest hrest' hmore]

mutual

theorem Plain.rows {depth : Nat} : ∀ {o : Outline}, o.Plain → ∀ entry ∈ o.rows depth, IsRow entry.2
  | .entry _ _, ⟨hline, hparts⟩ =>
    List.forall_mem_cons.mpr ⟨hline, PlainAll.rows hparts⟩

theorem PlainAll.rows {depth : Nat} : ∀ {parts : List Outline}, PlainAll parts →
    ∀ entry ∈ rowsAll depth parts, IsRow entry.2
  | [], _ => List.forall_mem_nil _
  | _ :: _, ⟨hpart, hrest⟩ => List.forall_mem_append.mpr ⟨Plain.rows hpart, PlainAll.rows hrest⟩

end

/-- Plain outlines with the same text are the same. -/
theorem render_inj {o o' : Outline} (h : o.Plain) (h' : o'.Plain)
    (heq : o.render 0 = o'.render 0) : o = o' := by
  have hrows : ∀ {o : Outline}, o.Plain → ∀ line ∈ (o.rows 0).map row, '\n' ∉ line.toList := by
    intro o ho line hline hfeed
    obtain ⟨entry, hentry, rfl⟩ := List.mem_map.mp hline
    rw [row, indent, String.toList_append, String.toList_ofList, List.mem_append] at hfeed
    rcases hfeed with hfeed | hfeed
    · exact absurd (List.eq_of_mem_replicate hfeed) (by decide)
    · exact (ho.rows entry hentry).lineFeed hfeed
  have htext : String.join ((o.linesOf 0).map (· ++ "\n")) =
      String.join ((o'.linesOf 0).map (· ++ "\n")) := Except.ok.inj heq
  have hlines : o.linesOf 0 = (o.rows 0).map row := linesOf_eq 0 o
  have hlines' : o'.linesOf 0 = (o'.rows 0).map row := linesOf_eq 0 o'
  rw [hlines, hlines'] at htext
  have hsame := map_row_inj h.rows h'.rows (lines_inj (hrows h) (hrows h') htext)
  have hnone : Shallow 0 [] := nofun
  exact (rows_inj hnone hnone o o' (by rw [hsame])).1

end Text

end Outline

end KestrelCompiler
