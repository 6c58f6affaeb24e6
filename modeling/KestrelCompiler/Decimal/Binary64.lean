/-!
Binary floating-point numbers of 64 bits: the one nearest to a decimal number, and the shortest
decimal number that is read back as a given one. All arithmetic is exact.
-/

namespace KestrelCompiler

/-- A finite number is `mantissa * 2 ^ exponent` with its sign. -/
inductive Binary64 where
  | finite (negative : Bool) (mantissa : Nat) (exponent : Int)
  | infinite (negative : Bool)
  | nan
  deriving DecidableEq

namespace Binary64

def leastExponent : Int := -1074
def greatestExponent : Int := 971

/-- `numerator / denominator` rounded to a whole number; a half goes to the even neighbour. -/
def roundDiv (numerator denominator : Nat) : Nat :=
  let floor := numerator / denominator
  let rest := 2 * (numerator % denominator)
  if rest < denominator || rest = denominator && floor % 2 = 0 then floor else floor + 1

/-- `numerator / denominator` in units of `base ^ power`. -/
def inUnits (base : Nat) (power : Int) (numerator denominator : Nat) : Nat × Nat :=
  (numerator * base.pow (-power).toNat, denominator * base.pow power.toNat)

/-- Mantissas have 53 binary digits. -/
def mantissaBound : Nat := Nat.pow 2 53

/-- Mantissa and exponent of the number nearest to a positive ratio. -/
def nearest (numerator denominator : Nat) : Nat × Int :=
  let guess := max ((numerator.log2 : Int) - denominator.log2 - 53) leastExponent
  let (n, d) := inUnits 2 guess numerator denominator
  let exponent := if mantissaBound ≤ n / d then guess + 1 else guess
  let (n, d) := inUnits 2 exponent numerator denominator
  let mantissa := roundDiv n d
  if mantissa = mantissaBound then (mantissa / 2, exponent + 1) else (mantissa, exponent)

/-- The number nearest to `digits * 10 ^ power`. Powers far out of range are not computed. -/
def ofDecimal (negative : Bool) (digits : Nat) (power : Int) : Binary64 :=
  let magnitude := (Nat.toDigits 10 digits).length + power
  if digits = 0 || magnitude < -330 then finite negative 0 leastExponent
  else if 310 < magnitude then infinite negative
  else
    let (n, d) := inUnits 10 (-power) digits 1
    let (mantissa, exponent) := nearest n d
    if greatestExponent < exponent then infinite negative else finite negative mantissa exponent

/-- The greatest power of ten that is not above a positive ratio. -/
def decimalPower (numerator denominator : Nat) : Int :=
  if denominator ≤ numerator then (Nat.toDigits 10 (numerator / denominator)).length - 1
  else
    let below := (Nat.toDigits 10 (denominator / numerator)).length - 1
    if numerator * Nat.pow 10 below = denominator then -below else -(below + 1 : Int)

/-- The decimal number of `count` digits that is read back as the given mantissa and exponent, if
there is one: of its two neighbours with so many digits the nearer. -/
def withDigits? (mantissa : Nat) (exponent : Int) (count : Nat) : Option (Nat × Int) :=
  let (n, d) := inUnits 2 (-exponent) mantissa 1
  let power := decimalPower n d - count + 1
  let (n, d) := inUnits 10 power n d
  let below := n / d
  let readsBack (digits : Nat) : Bool :=
    let (n, d) := inUnits 10 (-power) digits 1
    nearest n d = (mantissa, exponent)
  let rounded := roundDiv n d
  if readsBack rounded then some (rounded, power)
  else if readsBack below then some (below, power)
  else if readsBack (below + 1) then some (below + 1, power)
  else none

/-- The shortest decimal number that is read back; seventeen digits are always enough. -/
def shortest (mantissa : Nat) (exponent : Int) : Nat × Int :=
  ((List.range' 1 17).findSome? (withDigits? mantissa exponent)).getD (0, 0)

/-- Positional digits with at least one on each side of the point. -/
def positional (digits : List Char) (point : Int) : List Char :=
  if point ≤ 0 then '0' :: '.' :: List.replicate (-point).toNat '0' ++ digits
  else
    let whole := digits.take point.toNat
    let rest := digits.drop point.toNat
    whole ++ List.replicate (point.toNat - whole.length) '0' ++
      '.' :: (if rest.isEmpty then ['0'] else rest)

/-- One digit before the point, and an exponent of at least two digits. -/
def scientific (digits : List Char) (point : Int) : List Char :=
  let exponent := (point - 1).natAbs
  let written := Nat.toDigits 10 exponent
  digits.take 1 ++ (if digits.length ≤ 1 then [] else '.' :: digits.drop 1) ++
    'e' :: (if point < 1 then '-' else '+') ::
      (List.replicate (2 - written.length) '0' ++ written)

/-- The shortest decimal form: positional from 0.0001 to below 10 ^ 16, scientific elsewhere. -/
def render : Binary64 → String
  | nan => "nan"
  | infinite negative => if negative then "-inf" else "inf"
  | finite negative mantissa exponent =>
    let sign := if negative then ['-'] else []
    if mantissa = 0 then String.ofList (sign ++ ['0', '.', '0'])
    else
      let (number, power) := shortest mantissa exponent
      let written := Nat.toDigits 10 number
      let point : Int := written.length + power
      let digits := (written.reverse.dropWhile (· = '0')).reverse
      String.ofList (sign ++
        if -4 < point && point ≤ 16 then positional digits point else scientific digits point)

end Binary64

end KestrelCompiler
