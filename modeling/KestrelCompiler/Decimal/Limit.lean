/-!
The bound on the length of decimal numbers. Longer numbers are neither read nor written.
-/

namespace KestrelCompiler.Decimal

/-- The most digits that a decimal number may have. -/
def maxDigits : Nat := 4300

/-- Tells whether a number is short enough to be written in decimal digits. -/
def isWritable (value : Int) : Bool :=
  value.natAbs < Nat.pow 10 maxDigits

/-- What is said of a number that is too long to be written. -/
def unwritable : String :=
  "Exceeds the limit (" ++ toString maxDigits ++ " digits) for integer string conversion; " ++
    "use sys.set_int_max_str_digits() to increase the limit"

/-- What is said of a written number of so many digits that is too long to be read. -/
def unreadable (digits : Nat) : String :=
  "Exceeds the limit (" ++ toString maxDigits ++ " digits) for integer string conversion: " ++
    "value has " ++ toString digits ++ " digits; use sys.set_int_max_str_digits() to increase " ++
    "the limit"

end KestrelCompiler.Decimal
