/-!
Rows: a text written several times over. The number of times may be any integer, but the length of a
row has to fit into a signed word, and the row into memory.
-/

namespace KestrelCompiler.Text

/-- Why a row cannot be made. -/
inductive RowError where
  | overflow
  | outOfMemory
  deriving DecidableEq

def RowError.message : RowError → String
  | overflow => "the length of a row does not fit into a signed word of 64 bits"
  | outOfMemory => "a row is too long for the memory"

/-- The most characters that are taken to fit into memory. -/
def maxRow : Nat := 68719476736

/-- Whether a text of `width` characters can be written `count` times. -/
def checkRow (width : Nat) (count : Int) : Except RowError Unit :=
  if count < Int64.minValue.toInt || Int64.maxValue.toInt < width * count then .error .overflow
  else if maxRow < width * count then .error .outOfMemory
  else .ok ()

/-- A row of one character; a negative count counts as zero. -/
def row (c : Char) (count : Int) : Except RowError String := do
  checkRow 1 count
  .ok (String.ofList (List.replicate count.toNat c))

end KestrelCompiler.Text
