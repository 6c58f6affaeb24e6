/-!
Sets of characters given as ascending, disjoint ranges of code points. A search stops at the first
range that begins above the character sought.
-/

namespace KestrelCompiler.Text

/-- `inRanges table n` holds when some range of the ascending `table` contains `n`. -/
def inRanges : List (Nat × Nat) → Nat → Bool
  | [], _ => false
  | (low, high) :: rest, n => low ≤ n && (n ≤ high || inRanges rest n)

theorem exists_of_inRanges {table : List (Nat × Nat)} {n : Nat} (h : inRanges table n = true) :
    ∃ range ∈ table, range.1 ≤ n ∧ n ≤ range.2 := by
  induction table with
  | nil => cases h
  | cons range rest ih =>
      simp only [inRanges, Bool.and_eq_true, Bool.or_eq_true, decide_eq_true_eq] at h
      rcases h with ⟨hlow, hhigh | hrest⟩
      · exact ⟨range, List.mem_cons_self, hlow, hhigh⟩
      · obtain ⟨found, hmem, hbounds⟩ := ih hrest
        exact ⟨found, List.mem_cons_of_mem _ hmem, hbounds⟩

end KestrelCompiler.Text
