import KestrelCompiler.Cursor

/-!
What a cursor reads. At an offset that is not negative, the text ahead of a cursor is the part of the
source from that offset on, and moving over a piece of this text leaves the rest of it ahead.
-/

namespace KestrelCompiler.Cursor

/-- The source from the cursor on. -/
def rest (c : Cursor) : List Char :=
  c.source.drop c.location.offset.toNat

@[simp] theorem moveTo_location (c : Cursor) (l : Location) : (c.moveTo l).location = l := rfl

@[simp] theorem moveTo_source (c : Cursor) (l : Location) : (c.moveTo l).source = c.source := rfl

@[simp] theorem skipBlank_source (c : Cursor) : c.skipBlank.source = c.source := rfl

@[simp] theorem moveTo_skipBlank (c : Cursor) (l : Location) :
    c.skipBlank.moveTo l = c.moveTo l := rfl

theorem ahead_of_nonneg {c : Cursor} (h : 0 ≤ c.location.offset) : c.ahead = c.rest :=
  if_pos h

theorem sliceFrom_location {c : Cursor} (h : 0 ≤ c.location.offset) :
    Text.sliceFrom c.source c.location.offset = c.rest :=
  Text.sliceFrom_of_nonneg c.source h

theorem nonneg_walk {l : Location} (h : 0 ≤ l.offset) (text : List Char) :
    0 ≤ (l.walk text).offset := by
  rw [Location.offset_walk]
  omega

theorem toNat_offset_walk {l : Location} (h : 0 ≤ l.offset) (text : List Char) :
    (l.walk text).offset.toNat = l.offset.toNat + text.length := by
  rw [Location.offset_walk]
  omega

theorem nonneg_ofString (source : String) : 0 ≤ (ofString source).location.offset :=
  Int.le_refl 0

theorem rest_ofString (source : String) : (ofString source).rest = source.toList := rfl

theorem rest_moveTo_walk {c : Cursor} (h : 0 ≤ c.location.offset) {text after : List Char}
    (hrest : c.rest = text ++ after) : (c.moveTo (c.location.walk text)).rest = after := by
  have hdrop : (c.moveTo (c.location.walk text)).rest = c.rest.drop text.length := by
    simp only [rest, moveTo_source, moveTo_location, toNat_offset_walk h, List.drop_drop]
  rw [hdrop, hrest, List.drop_left]

theorem nonneg_skipBlank {c : Cursor} (h : 0 ≤ c.location.offset) :
    0 ≤ c.skipBlank.location.offset :=
  nonneg_walk h _

theorem skipBlank_location {c : Cursor} (h : 0 ≤ c.location.offset) :
    c.skipBlank.location = c.location.walk (c.rest.takeWhile Text.isBlank) := by
  rw [skipBlank, moveTo_location, ahead_of_nonneg h]

theorem rest_skipBlank {c : Cursor} (h : 0 ≤ c.location.offset) :
    c.skipBlank.rest = c.rest.dropWhile Text.isBlank := by
  rw [skipBlank, ahead_of_nonneg h]
  exact rest_moveTo_walk h List.takeWhile_append_dropWhile.symm

/-- The character past a piece of the text ahead is the first one of what follows. -/
theorem charAt?_walk {c : Cursor} (h : 0 ≤ c.location.offset) {text after : List Char}
    (hrest : c.rest = text ++ after) : c.charAt? (c.location.walk text) = after.head? := by
  have hafter := rest_moveTo_walk h hrest
  rw [charAt?, if_pos (nonneg_walk h text), ← hafter, rest, List.head?_drop]
  rfl

theorem slice_walk {c : Cursor} (h : 0 ≤ c.location.offset) {text after : List Char}
    (hrest : c.rest = text ++ after) :
    Text.slice c.source c.location.offset (c.location.walk text).offset = text := by
  have hlength : (text ++ after).length = c.source.length - c.location.offset.toNat := by
    rw [← hrest, rest, List.length_drop]
  rw [List.length_append] at hlength
  rw [Text.slice, sliceFrom_location h, Text.placeOf_of_nonneg h,
    Text.placeOf_of_nonneg (nonneg_walk h text), toNat_offset_walk h, hrest]
  by_cases hempty : text = []
  · simp [hempty]
  · have hpos : 0 < text.length := List.length_pos_iff.mpr hempty
    have hcount : min (c.location.offset.toNat + text.length) c.source.length -
        min c.location.offset.toNat c.source.length = text.length := by
      omega
    rw [hcount, List.take_left]

/-- A token covers the piece of the text ahead that its span was walked over. -/
theorem ofSpan_walk {c : Cursor} (h : 0 ≤ c.location.offset) {text after : List Char}
    (hrest : c.rest = text ++ after) :
    Token.ofSpan c.source ⟨c.location, c.location.walk text⟩ =
      ⟨⟨c.location, c.location.walk text⟩, String.ofList text, false⟩ := by
  simp only [Token.ofSpan, Token.borrowed, slice_walk h hrest]

theorem literal_iff {c : Cursor} (h : 0 ≤ c.location.offset) {text : String} {span : Span} :
    Lexeme.literal text c = some span ↔
      text.toList ≠ [] ∧ (∃ after, c.rest = text.toList ++ after) ∧
        span = ⟨c.location, c.location.walk text.toList⟩ := by
  rw [Lexeme.literal, sliceFrom_location h]
  simp only [Bool.and_eq_true, decide_eq_true_eq, List.isPrefixOf_iff_prefix,
    Option.ite_none_right_eq_some, Option.some.injEq]
  constructor
  · rintro ⟨⟨hne, after, hafter⟩, hspan⟩
    exact ⟨hne, ⟨after, hafter.symm⟩, hspan.symm⟩
  · rintro ⟨hne, ⟨after, hafter⟩, hspan⟩
    exact ⟨⟨hne, after, hafter.symm⟩, hspan.symm⟩

end KestrelCompiler.Cursor
