import KestrelCompiler.Decimal.Binary64
import KestrelCompiler.Decimal.Limit

/-!
Values of configuration files.
-/

namespace KestrelCompiler.Toml

structure Date where
  year : Nat
  month : Nat
  day : Nat

structure Time where
  hour : Nat
  minute : Nat
  second : Nat
  microsecond : Nat := 0

inductive Value where
  | string (text : String)
  | integer (value : Int)
  | float (value : Binary64)
  | boolean (value : Bool)
  | date (date : Date)
  | time (time : Time)
  /-- The offset, if there is one, in minutes east of Greenwich. -/
  | dateTime (date : Date) (time : Time) (offset : Option Int)
  | array (items : List Value)
  | table (entries : List (String × Value))

/-- Keys with their values, in the order in which the keys were first written. -/
abbrev Table := List (String × Value)

namespace Value

/-- Empty texts, arrays and tables, zeros and `false` stand for nothing. -/
def isNothing : Value → Bool
  | string text => text.isEmpty
  | integer value => value = 0
  | float (.finite _ mantissa _) => mantissa = 0
  | boolean value => !value
  | array items => items.isEmpty
  | table entries => entries.isEmpty
  | _ => false

mutual

/-- Tells whether all integers are short enough to be written in decimal digits. -/
def isWritable : Value → Bool
  | integer value => Decimal.isWritable value
  | array items => areWritable items
  | table entries => entriesWritable entries
  | _ => true

def areWritable : List Value → Bool
  | [] => true
  | item :: rest => item.isWritable && areWritable rest

def entriesWritable : List (String × Value) → Bool
  | [] => true
  | (_, value) :: rest => value.isWritable && entriesWritable rest

end

end Value

namespace Date

def isLeapYear (year : Nat) : Bool :=
  year % 4 = 0 && (year % 100 ≠ 0 || year % 400 = 0)

def daysInMonth (year : Nat) : Nat → Nat
  | 2 => if isLeapYear year then 29 else 28
  | 4 | 6 | 9 | 11 => 30
  | _ => 31

def isValid (d : Date) : Bool :=
  1 ≤ d.year && d.day ≤ daysInMonth d.year d.month

end Date

end KestrelCompiler.Toml
