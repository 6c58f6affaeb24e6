/-!
Points in a source text and the spans between them. Counting starts at zero; only the written form
counts lines and columns from one.
-/

namespace KestrelCompiler

/-- A point in a source text. `index` counts UTF-8 bytes, `offset` code points; `line` counts the
line feeds before the point and `column` the code points after the last of them. -/
structure Location where
  index : Int := 0
  line : Int := 0
  column : Int := 0
  offset : Int := 0
  deriving DecidableEq

namespace Location

def start : Location := {}

/-- The point just past the character `c`. -/
def advance (l : Location) (c : Char) : Location where
  index := l.index + c.utf8Size
  line := if c = '\n' then l.line + 1 else l.line
  column := if c = '\n' then 0 else l.column + 1
  offset := l.offset + 1

/-- The point past a whole text. -/
def walk (l : Location) (text : List Char) : Location :=
  text.foldl advance l

/-- Points are ordered by byte index, then by line, column and offset. -/
protected def lt (a b : Location) : Bool :=
  a.index < b.index || a.index = b.index &&
    (a.line < b.line || a.line = b.line &&
      (a.column < b.column || a.column = b.column && a.offset < b.offset))

instance : LT Location := ⟨fun a b => Location.lt a b = true⟩
instance : LE Location := ⟨fun a b => a < b ∨ a = b⟩
instance (a b : Location) : Decidable (a < b) := inferInstanceAs (Decidable (_ = true))
instance (a b : Location) : Decidable (a ≤ b) := inferInstanceAs (Decidable (_ ∨ _))

/-- `line:column`, both counted from one. -/
def describe (l : Location) : String :=
  toString (l.line + 1) ++ ":" ++ toString (l.column + 1)

@[simp] theorem walk_nil (l : Location) : l.walk [] = l := rfl

@[simp] theorem walk_cons (l : Location) (c : Char) (text : List Char) :
    l.walk (c :: text) = (l.advance c).walk text := rfl

theorem walk_append (l : Location) (a b : List Char) : l.walk (a ++ b) = (l.walk a).walk b :=
  List.foldl_append

theorem offset_walk (l : Location) (text : List Char) :
    (l.walk text).offset = l.offset + text.length := by
  induction text generalizing l with
  | nil => simp
  | cons c rest ih =>
      rw [walk_cons, ih, List.length_cons]
      simp only [advance]
      omega

end Location

/-- A half-open stretch of a source text. -/
structure Span where
  start : Location
  stop : Location
  deriving DecidableEq

/-- Why a span has no length. -/
inductive LengthError where
  /-- The end lies before the start. -/
  | negative
  /-- The length does not fit into a signed word. -/
  | tooLong
  deriving DecidableEq

def LengthError.message : LengthError → String
  | negative => "__len__() should return >= 0"
  | tooLong => "the length does not fit into a signed word of 64 bits"

namespace Span

/-- The distance in bytes, which is negative when `stop` lies before `start`. -/
def size (s : Span) : Int :=
  s.stop.index - s.start.index

/-- The number of bytes covered. -/
def length? (s : Span) : Except LengthError Nat :=
  if s.size < 0 then .error .negative
  else if s.size ≤ Int64.maxValue.toInt then .ok s.size.toNat
  else .error .tooLong

/-- The span from the start of `a` to the end of `b`. -/
def cover (a b : Span) : Span :=
  ⟨a.start, b.stop⟩

def describe (s : Span) : String :=
  s.start.describe ++ "-" ++ s.stop.describe

end Span

end KestrelCompiler
