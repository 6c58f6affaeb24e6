import KestrelCompiler.Proofs.Reading.Point
import KestrelCompiler.Text.Lines
import Mathlib.Data.List.TakeWhile

/-!
Lines and points. A point counts line feeds, while lines end at every break that Unicode knows. Both
agree on the place of a character where all breaks before it are line feeds, alone or behind a
carriage return.
-/

namespace KestrelCompiler.Text

/-- Each line break is a line feed, or a carriage return in front of one. -/
def BreaksAreFeeds : List Char → Prop
  | [] => True
  | b :: rest =>
      (b ∈ lineBreaks → b = '\n' ∨ b = '\r' ∧ rest.head? = some '\n') ∧ BreaksAreFeeds rest

instance decidableBreaksAreFeeds : (text : List Char) → Decidable (BreaksAreFeeds text)
  | [] => inferInstanceAs (Decidable True)
  | b :: rest =>
      have := decidableBreaksAreFeeds rest
      inferInstanceAs (Decidable ((b ∈ lineBreaks → b = '\n' ∨ b = '\r' ∧ rest.head? = some '\n') ∧
        BreaksAreFeeds rest))

/-- How many characters stand behind the last line feed. -/
def column (text : List Char) : Nat :=
  (text.reverse.takeWhile (· ≠ '\n')).length

theorem takeWhile_of_not_mem {text : List Char} (h : '\n' ∉ text) :
    text.reverse.takeWhile (· ≠ '\n') = text.reverse := by
  refine List.takeWhile_eq_self_iff.mpr fun c hc => decide_eq_true fun heq => h ?_
  rwa [← heq, ← List.mem_reverse]

theorem column_of_not_mem {text : List Char} (h : '\n' ∉ text) : column text = text.length := by
  rw [column, takeWhile_of_not_mem h, List.length_reverse]

/-- What stands before a line feed does not count. -/
theorem column_cons_of_mem {text : List Char} (h : '\n' ∈ text) (c : Char) :
    column (c :: text) = column text := by
  rw [column, List.reverse_cons, List.takeWhile_append, if_neg, column]
  intro hlength
  have hall := List.takeWhile_eq_self_iff.mp
    ((List.takeWhile_prefix _).eq_of_length hlength) '\n' (List.mem_reverse.mpr h)
  exact of_decide_eq_true hall rfl

theorem column_feed (text : List Char) : column ('\n' :: text) = column text := by
  by_cases h : '\n' ∈ text
  · exact column_cons_of_mem h '\n'
  · rw [column, List.reverse_cons, List.takeWhile_append, takeWhile_of_not_mem h, if_pos rfl,
      column_of_not_mem h]
    simp

theorem lines_cons_of_not_mem {c : Char} (h : c ∉ lineBreaks) (rest : List Char) :
    lines (c :: rest) = match lines rest with
      | [] => [[c]]
      | line :: others => (c :: line) :: others := by
  have hreturn : c ≠ '\r' := by
    rintro rfl
    exact h (by decide)
  have hpair : ∀ others, c = '\r' → rest = '\n' :: others → False := fun _ hc _ => hreturn hc
  exact (lines.eq_3 c rest hpair).trans (if_neg (by simpa using h))

/-- A character that is no break stands at the front of the first line, and moves what is there. -/
theorem exists_line_cons {b c : Char} (hb : b ∉ lineBreaks) {before text found : List Char}
    (hline : (lines text)[before.count '\n']? = some found)
    (hcolumn : found[column before]? = some c) :
    ∃ found, (lines (b :: text))[(b :: before).count '\n']? = some found ∧
      found[column (b :: before)]? = some c := by
  have hne : b ≠ '\n' := by
    rintro rfl
    exact hb (by decide)
  rw [lines_cons_of_not_mem hb, List.count_cons_of_ne hne]
  cases hlines : lines text with
  | nil =>
      rw [hlines] at hline
      cases hline
  | cons first others =>
      rw [hlines] at hline
      by_cases hmem : '\n' ∈ before
      · -- the character stands behind the first line
        obtain ⟨n, hn⟩ := Nat.exists_eq_succ_of_ne_zero (List.count_pos_iff.mpr hmem).ne'
        rw [column_cons_of_mem hmem]
        rw [hn] at hline ⊢
        exact ⟨found, hline, hcolumn⟩
      · have hboth : '\n' ∉ b :: before := by
          rw [List.mem_cons, not_or]
          exact ⟨hne.symm, hmem⟩
        rw [column_of_not_mem hmem] at hcolumn
        rw [column_of_not_mem hboth]
        rw [List.count_eq_zero_of_not_mem hmem] at hline ⊢
        cases hline
        exact ⟨_, rfl, hcolumn⟩

/-- The line of a character, and its place in that. -/
theorem exists_line {c : Char} (hc : c ∉ lineBreaks) (after : List Char) :
    ∀ before, BreaksAreFeeds before →
      ∃ found, (lines (before ++ c :: after))[before.count '\n']? = some found ∧
        found[column before]? = some c
  | [], _ => by
    rw [List.nil_append, lines_cons_of_not_mem hc]
    cases lines after with
    | nil => exact ⟨[c], rfl, rfl⟩
    | cons first others => exact ⟨c :: first, rfl, rfl⟩
  | b :: before, h => by
    by_cases hb : b ∈ lineBreaks
    · rcases h.1 hb with rfl | ⟨rfl, hfeed⟩
      · obtain ⟨found, hline, hcolumn⟩ := exists_line hc after before h.2
        refine ⟨found, ?_, by rwa [column_feed]⟩
        rw [List.count_cons_self]
        exact hline
      · cases before with
        | nil => cases hfeed
        | cons f before =>
            cases hfeed
            obtain ⟨found, hline, hcolumn⟩ := exists_line hc after before h.2.2
            refine ⟨found, ?_, by rwa [column_cons_of_mem List.mem_cons_self, column_feed]⟩
            rw [List.count_cons_of_ne (by decide), List.count_cons_self]
            exact hline
    · obtain ⟨found, hline, hcolumn⟩ := exists_line hc after before h.2
      exact exists_line_cons hb hline hcolumn

end KestrelCompiler.Text
