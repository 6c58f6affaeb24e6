/-!
Hexadecimal numbers, written in lower case and read in either case.
-/

namespace KestrelCompiler.Text

/-- `n` in lower-case digits, at least `width` of them. -/
def hexadecimal (n width : Nat) : List Char :=
  let digits := Nat.toDigits 16 n
  List.replicate (width - digits.length) '0' ++ digits

def hexValue? (c : Char) : Option Nat :=
  if '0' ≤ c && c ≤ '9' then some (c.toNat - '0'.toNat)
  else if 'a' ≤ c && c ≤ 'f' then some (c.toNat - 'a'.toNat + 10)
  else if 'A' ≤ c && c ≤ 'F' then some (c.toNat - 'A'.toNat + 10)
  else none

/-- The value of digits of any base, the most significant first. -/
def ofDigits (base : Nat) (digits : List Nat) : Nat :=
  digits.foldl (fun n d => base * n + d) 0

def isSurrogate (value : Nat) : Bool :=
  0xD800 ≤ value && value ≤ 0xDFFF

end KestrelCompiler.Text
