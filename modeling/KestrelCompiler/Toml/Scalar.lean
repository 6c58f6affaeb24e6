import KestrelCompiler.Decimal.Limit
import KestrelCompiler.Text.Hexadecimal
import KestrelCompiler.Toml.Value

/-!
Readers for the parts of a configuration file that hold no other values: texts, numbers, dates and
comments. A reader gives what it read and the rest of the file, or nothing where it cannot go on.
What has the form of a number or a date may still stand for no value, which is a fault of the file.
-/

namespace KestrelCompiler.Toml

/-- Why a file cannot be read. -/
inductive Fault where
  | malformed
  /-- A decimal integer of so many digits, which are too many. -/
  | longInteger (digits : Nat)

abbrev Reader (α : Type) := List Char → Option (α × List Char)

def isBlank (c : Char) : Bool :=
  c = ' ' || c = '\t'

def skipBlanks (text : List Char) : List Char :=
  text.dropWhile isBlank

def skipSpace (text : List Char) : List Char :=
  text.dropWhile fun c => isBlank c || c = '\n'

/-- Control characters other than the tab. -/
def isForbidden (c : Char) : Bool :=
  (c.toNat < 0x20 || c.toNat = 0x7F) && c ≠ '\t'

/-- Skips a comment, if one begins here, up to the end of its line. -/
def skipComment : List Char → Option (List Char)
  | '#' :: rest =>
    if (rest.takeWhile (· ≠ '\n')).any isForbidden then none
    else some (rest.dropWhile (· ≠ '\n'))
  | text => some text

/-! Texts -/

/-- A text up to a single quotation mark on the same line. -/
def literalText : Reader (List Char) := fun text =>
  let body := text.takeWhile (· ≠ '\'')
  match text.dropWhile (· ≠ '\'') with
  | _ :: rest => if body.any isForbidden then none else some (body, rest)
  | [] => none

/-- What stands before three single quotation marks in a row. -/
def upToTriple : Reader (List Char)
  | '\'' :: '\'' :: '\'' :: rest => some ([], rest)
  | c :: rest => (upToTriple rest).map fun (body, after) => (c :: body, after)
  | [] => none

/-- Up to two quotation marks may stand directly before the closing three. -/
def extraMarks (mark : Char) (body text : List Char) : List Char × List Char :=
  let extra := (text.take 2).takeWhile (· = mark)
  (body ++ extra, text.drop extra.length)

/-- A line feed directly after the opening marks does not count. -/
def dropFirstBreak : List Char → List Char
  | '\n' :: rest => rest
  | text => text

def literalBlock : Reader (List Char) := fun text => do
  let (body, rest) ← upToTriple (dropFirstBreak text)
  if body.any fun c => isForbidden c && c ≠ '\n' then none
  some (extraMarks '\'' body rest)

def scalarEscape (digits : Nat) : Reader (List Char) := fun text => do
  let written := text.take digits
  let values ← written.mapM Text.hexValue?
  let value := Text.ofDigits 16 values
  if written.length ≠ digits || Text.isSurrogate value || 0x10FFFF < value then none
  some ([Char.ofNat value], text.drop digits)

def namedEscape? : Char → Option Char
  | 'b' => some '\x08'
  | 't' => some '\t'
  | 'n' => some '\n'
  | 'f' => some '\x0c'
  | 'r' => some '\r'
  | '"' => some '"'
  | '\\' => some '\\'
  | _ => none

/-- What an escape stands for. In a block, a backslash at the end of a line joins it to the next
text, whatever space is between. -/
def escape (block : Bool) : Reader (List Char)
  | [] => none
  | c :: rest =>
    if block && c = '\n' then some ([], skipSpace rest)
    else if block && isBlank c then
      match skipBlanks rest with
      | [] => some ([], [])
      | next :: after => if next = '\n' then some ([], skipSpace after) else none
    else if c = 'u' then scalarEscape 4 rest
    else if c = 'U' then scalarEscape 8 rest
    else (namedEscape? c).map fun value => ([value], rest)

/-- A text up to the closing double quotation mark, or three of them for a block; `read` holds what
was read so far, last character first. -/
def basicBody (block : Bool) : Nat → List Char → Reader (List Char)
  | 0, _, _ => none
  | _, _, [] => none
  | fuel + 1, read, c :: rest =>
    if c = '"' then
      if !block then some (read.reverse, rest)
      else if rest.take 2 = ['"', '"'] then some (read.reverse, rest.drop 2)
      else basicBody block fuel ('"' :: read) rest
    else if c = '\\' then do
      let (value, rest) ← escape block rest
      basicBody block fuel (value.reverse ++ read) rest
    else if isForbidden c && !(block && c = '\n') then none
    else basicBody block fuel (c :: read) rest

def basicText : Reader (List Char) := fun text =>
  basicBody false (text.length + 1) [] text

def basicBlock : Reader (List Char) := fun text => do
  let text := dropFirstBreak text
  let (body, rest) ← basicBody true (text.length + 1) [] text
  some (extraMarks '"' body rest)

/-! Numbers -/

/-- Digits with single underscores between them. -/
def digitRun (isDigit : Char → Bool) : List Char → List Char × List Char
  | '_' :: c :: rest =>
    if isDigit c then
      let (digits, after) := digitRun isDigit rest
      (c :: digits, after)
    else ([], '_' :: c :: rest)
  | c :: rest =>
    if isDigit c then
      let (digits, after) := digitRun isDigit rest
      (c :: digits, after)
    else ([], c :: rest)
  | [] => ([], [])

/-- One digit or more. -/
def digits (isDigit : Char → Bool) : Reader (List Char) := fun text =>
  match text.head? with
  | some c => if isDigit c then some (digitRun isDigit text) else none
  | none => none

def valueOf (base : Nat) (written : List Char) : Nat :=
  Text.ofDigits base (written.filterMap Text.hexValue?)

def isDigitBelow (base : Nat) (c : Char) : Bool :=
  (Text.hexValue? c).any (· < base)

/-- An integer with a base, such as `0x1F`. -/
def basedInteger : Reader Value := fun text => do
  let base ← match text.take 2 with
    | ['0', 'x'] => some 16
    | ['0', 'o'] => some 8
    | ['0', 'b'] => some 2
    | _ => none
  let (written, rest) ← digits (isDigitBelow base) (text.drop 2)
  some (.integer (valueOf base written), rest)

def sign (text : List Char) : Bool × List Char :=
  match text with
  | '-' :: rest => (true, rest)
  | '+' :: rest => (false, rest)
  | _ => (false, text)

/-- A single zero, or digits that do not begin with one. -/
def wholePart : Reader (List Char)
  | '0' :: rest => some (['0'], rest)
  | text => digits Char.isDigit text

def fraction? : Reader (List Char)
  | '.' :: rest => digits Char.isDigit rest
  | _ => none

def exponent? : Reader Int
  | c :: rest => do
    if c ≠ 'e' && c ≠ 'E' then none
    let (negative, rest) := sign rest
    let (written, rest) ← digits Char.isDigit rest
    let value : Int := valueOf 10 written
    some (if negative then -value else value, rest)
  | [] => none

/-- Takes it as a match that an optional part is absent. -/
def optionally {α : Type} (r : Reader α) (text : List Char) : Option α × List Char :=
  match r text with
  | some (a, rest) => (some a, rest)
  | none => (none, text)

/-- A decimal integer has a bounded number of digits. -/
def decimalInteger (negative : Bool) (written : List Char) : Except Fault Value :=
  let value : Int := valueOf 10 written
  if written.length ≤ Decimal.maxDigits then .ok (.integer (if negative then -value else value))
  else .error (.longInteger written.length)

/-- A decimal number; a fraction or an exponent makes it a floating-point one. -/
def decimalNumber : Reader (Except Fault Value) := fun text => do
  let (negative, rest) := sign text
  let (whole, rest) ← wholePart rest
  let (fraction, rest) := optionally fraction? rest
  let (exponent, rest) := optionally exponent? rest
  if fraction.isNone && exponent.isNone then some (decimalInteger negative whole, rest)
  else
    let fraction := fraction.getD []
    let power := exponent.getD 0 - fraction.length
    some (.ok (.float (.ofDecimal negative (valueOf 10 (whole ++ fraction)) power)), rest)

def specialNumber : Reader Value := fun text =>
  let (negative, rest) := sign text
  match rest.take 3 with
  | ['i', 'n', 'f'] => some (.float (.infinite negative), rest.drop 3)
  | ['n', 'a', 'n'] => some (.float .nan, rest.drop 3)
  | _ => none

/-! Dates and times -/

/-- A number of a fixed count of digits within bounds. -/
def fixed (count low high : Nat) : Reader Nat := fun text =>
  let written := text.take count
  let value := valueOf 10 written
  if written.length = count && written.all Char.isDigit && low ≤ value && value ≤ high then
    some (value, text.drop count)
  else none

def exactly (c : Char) : Reader Unit
  | d :: rest => if c = d then some ((), rest) else none
  | [] => none

def dateParts : Reader Date := fun text => do
  let (year, text) ← fixed 4 0 9999 text
  let (_, text) ← exactly '-' text
  let (month, text) ← fixed 2 1 12 text
  let (_, text) ← exactly '-' text
  let (day, text) ← fixed 2 1 31 text
  some (⟨year, month, day⟩, text)

/-- Digits of a second after the point; those after the sixth are dropped. -/
def microseconds? : Reader Nat
  | '.' :: rest =>
    match rest.takeWhile Char.isDigit with
    | [] => none
    | written =>
      let kept := written.take 6
      some (valueOf 10 kept * Nat.pow 10 (6 - kept.length), rest.dropWhile Char.isDigit)
  | _ => none

def timeParts : Reader Time := fun text => do
  let (hour, text) ← fixed 2 0 23 text
  let (_, text) ← exactly ':' text
  let (minute, text) ← fixed 2 0 59 text
  let (_, text) ← exactly ':' text
  let (second, text) ← fixed 2 0 59 text
  let (microsecond, text) := optionally microseconds? text
  some (⟨hour, minute, second, microsecond.getD 0⟩, text)

/-- The offset from Greenwich in minutes. -/
def zone? : Reader Int
  | [] => none
  | c :: rest =>
    if c = 'Z' || c = 'z' then some (0, rest)
    else do
      if c ≠ '+' && c ≠ '-' then none
      let (hours, rest) ← fixed 2 0 23 rest
      let (_, rest) ← exactly ':' rest
      let (minutes, rest) ← fixed 2 0 59 rest
      let offset : Int := hours * 60 + minutes
      some (if c = '-' then -offset else offset, rest)

/-- The time after a date, with a `T` or a space before it. -/
def timeAfterDate? : Reader Time
  | c :: rest => if c = 'T' || c = 't' || c = ' ' then timeParts rest else none
  | [] => none

/-- A day that its month does not have makes the file malformed. -/
def checkDay (date : Date) (value : Value) : Except Fault Value :=
  if date.isValid then .ok value else .error .malformed

/-- A date that begins here, with its time if one follows. -/
def dateValue : Reader (Except Fault Value) := fun text => do
  let (date, rest) ← dateParts text
  let (time, rest) := optionally timeAfterDate? rest
  match time with
  | none => some (checkDay date (.date date), rest)
  | some time =>
    let (zone, rest) := optionally zone? rest
    some (checkDay date (.dateTime date time zone), rest)

/-- A reader whose every match stands for a value. -/
def plainly {α : Type} (value : α → Value) (r : Reader α) : Reader (Except Fault Value) :=
  fun text => (r text).map fun (a, rest) => (.ok (value a), rest)

/-- A number, a date, a time or one of the words `true` and `false`. -/
def bareValue (text : List Char) : Except Fault (Value × List Char) :=
  if "true".toList.isPrefixOf text then .ok (.boolean true, text.drop 4)
  else if "false".toList.isPrefixOf text then .ok (.boolean false, text.drop 5)
  else
    let found := dateValue text <|> plainly .time timeParts text <|> plainly id basedInteger text
      <|> decimalNumber text <|> plainly id specialNumber text
    match found with
    | some (value, rest) => value.map (·, rest)
    | none => .error .malformed

end KestrelCompiler.Toml
