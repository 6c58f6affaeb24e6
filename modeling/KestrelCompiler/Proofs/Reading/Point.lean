import KestrelCompiler.Proofs.Reading.Cursor

/-!
Points of a source. A point is reached from the start by walking over the first characters of the
source, and its four counts follow from these characters. Points are ordered as their offsets are,
and the bytes between two of them encode the characters between them.
-/

namespace KestrelCompiler

theorem Text.slice_natCast {source : List Char} {i j : Nat} (h : i ≤ j) (hj : j ≤ source.length) :
    slice source i j = (source.drop i).take (j - i) := by
  rw [slice, sliceFrom_of_nonneg source (Int.natCast_nonneg i), placeOf_of_nonneg
    (Int.natCast_nonneg i), placeOf_of_nonneg (Int.natCast_nonneg j), Int.toNat_natCast,
    Int.toNat_natCast, Nat.min_eq_left hj, Nat.min_eq_left (Nat.le_trans h hj)]

namespace Location

theorem index_walk (l : Location) (text : List Char) :
    (l.walk text).index = l.index + text.utf8Encode.size := by
  induction text generalizing l with
  | nil => simp
  | cons c rest ih =>
      have hc : [c].utf8Encode.size = c.utf8Size := by
        simp [List.utf8Encode_singleton, String.length_utf8EncodeChar]
      rw [walk_cons, ih, List.utf8Encode_cons, ByteArray.size_append, hc]
      simp only [advance]
      omega

theorem line_walk (l : Location) (text : List Char) :
    (l.walk text).line = l.line + text.count '\n' := by
  induction text generalizing l with
  | nil => simp
  | cons c rest ih =>
      rw [walk_cons, ih, List.count_cons]
      by_cases hc : c = '\n'
      · simp [advance, hc]
        omega
      · simp [advance, hc]

/-- Past the last line feed each character takes one column. -/
theorem column_walk_reverse (text : List Char) :
    (start.walk text.reverse).column = (text.takeWhile (· ≠ '\n')).length := by
  induction text with
  | nil => rfl
  | cons c rest ih =>
      rw [List.reverse_cons, walk_append, walk_cons, walk_nil, List.takeWhile_cons]
      by_cases hc : c = '\n'
      · simp [advance, hc]
      · simp [advance, hc, ih]

/-- The point after the first `k` characters. -/
def point (source : List Char) (k : Nat) : Location :=
  start.walk (source.take k)

/-- The counts of the point after `k` characters. -/
structure IsPoint (source : List Char) (k : Nat) (l : Location) : Prop where
  le : k ≤ source.length
  offset : l.offset = k
  index : l.index = (source.take k).utf8Encode.size
  line : l.line = (source.take k).count '\n'
  column : l.column = ((source.take k).reverse.takeWhile (· ≠ '\n')).length

variable {source : List Char} {i j k : Nat}

theorem isPoint_point (h : k ≤ source.length) : IsPoint source k (point source k) where
  le := h
  offset := by
    rw [point, offset_walk, List.length_take, Nat.min_eq_left h]
    exact Int.zero_add _
  index := (index_walk _ _).trans (Int.zero_add _)
  line := (line_walk _ _).trans (Int.zero_add _)
  column := by
    have hcolumn := column_walk_reverse (source.take k).reverse
    rwa [List.reverse_reverse] at hcolumn

theorem walk_point {text after : List Char} (h : source.drop i = text ++ after) :
    (point source i).walk text = point source (i + text.length) := by
  rw [point, point, ← walk_append, List.take_add, h, List.take_left]

theorem take_of_le (h : i ≤ j) :
    source.take j = source.take i ++ (source.drop i).take (j - i) := by
  rw [← List.take_add, Nat.add_sub_cancel' h]

theorem index_point_lt (h : i < j) (hj : j ≤ source.length) :
    (point source i).index < (point source j).index := by
  have hne : (source.drop i).take (j - i) ≠ [] := by
    rw [← List.length_pos_iff, List.length_take, List.length_drop]
    omega
  have hpos : 0 < ((source.drop i).take (j - i)).utf8Encode.size := by
    rw [Nat.pos_iff_ne_zero]
    exact fun hzero => hne (List.utf8Encode_eq_empty.mp (ByteArray.size_eq_zero_iff.mp hzero))
  rw [(isPoint_point (by omega)).index, (isPoint_point hj).index, take_of_le (Nat.le_of_lt h),
    List.utf8Encode_append, ByteArray.size_append]
  omega

theorem point_lt (h : i < j) (hj : j ≤ source.length) : point source i < point source j := by
  have hindex := index_point_lt h hj
  change Location.lt _ _ = true
  simp [Location.lt, hindex]

theorem point_le (h : i ≤ j) (hj : j ≤ source.length) : point source i ≤ point source j := by
  rcases Nat.lt_or_eq_of_le h with hlt | rfl
  · exact .inl (point_lt hlt hj)
  · exact .inr rfl

end Location

namespace Span

open Location

/-- The stretch of a source from the point after `i` characters to the one after `j`. -/
def between (source : List Char) (i j : Nat) : Span :=
  ⟨point source i, point source j⟩

/-- The span covers the characters from `i` to `j`, and its bytes are their encoding. -/
structure Covers (source : List Char) (i j : Nat) (s : Span) : Prop where
  start : IsPoint source i s.start
  stop : IsPoint source j s.stop
  ordered : s.start ≤ s.stop
  bytes : source.utf8Encode.extract s.start.index.toNat s.stop.index.toNat =
    (Text.slice source s.start.offset s.stop.offset).utf8Encode

variable {source : List Char} {i j : Nat}

theorem offset_start_between (h : i ≤ source.length) : (between source i j).start.offset = i :=
  (isPoint_point h).offset

theorem offset_stop_between (h : j ≤ source.length) : (between source i j).stop.offset = j :=
  (isPoint_point h).offset

theorem covers_between (h : i ≤ j) (hj : j ≤ source.length) :
    (between source i j).Covers source i j where
  start := isPoint_point (Nat.le_trans h hj)
  stop := isPoint_point hj
  ordered := point_le h hj
  bytes := by
    have hsplit : (source.take i ++ (source.drop i).take (j - i)) ++ source.drop j = source := by
      rw [← take_of_le h, List.take_append_drop]
    rw [offset_start_between (Nat.le_trans h hj), offset_stop_between hj, Text.slice_natCast h hj,
      between, (isPoint_point (Nat.le_trans h hj)).index, (isPoint_point hj).index,
      Int.toNat_natCast, Int.toNat_natCast, take_of_le h]
    conv => lhs; arg 1; rw [← hsplit]
    rw [List.utf8Encode_append, List.utf8Encode_append, ByteArray.extract_append_size_left,
      ByteArray.extract_append_eq_right rfl ByteArray.size_append]

end Span

end KestrelCompiler
