/-!
Stretches of a text named by integer positions. A negative position counts from the end, and
positions outside the text stand for its nearer end.
-/

namespace KestrelCompiler.Text

/-- The place of position `i` in a text of `length` characters. -/
def placeOf (length : Nat) (i : Int) : Nat :=
  if i < 0 then (length + i).toNat else min i.toNat length

def sliceFrom (text : List Char) (start : Int) : List Char :=
  text.drop (placeOf text.length start)

/-- The characters from `start` up to `stop`; none when `stop` is not after `start`. -/
def slice (text : List Char) (start stop : Int) : List Char :=
  (sliceFrom text start).take (placeOf text.length stop - placeOf text.length start)

theorem placeOf_of_nonneg {length : Nat} {i : Int} (h : 0 ≤ i) :
    placeOf length i = min i.toNat length := by
  simp only [placeOf, Int.not_lt.mpr h, if_false]

theorem sliceFrom_of_nonneg (text : List Char) {start : Int} (h : 0 ≤ start) :
    sliceFrom text start = text.drop start.toNat := by
  rw [sliceFrom, placeOf_of_nonneg h]
  rcases Nat.le_total start.toNat text.length with hle | hle
  · rw [Nat.min_eq_left hle]
  · rw [Nat.min_eq_right hle, List.drop_length, List.drop_of_length_le hle]

end KestrelCompiler.Text
