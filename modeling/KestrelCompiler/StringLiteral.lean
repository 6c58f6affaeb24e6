import KestrelCompiler.Rule

/-!
String literals. Between the quotation marks a backslash begins an escape: one of `n r t \ "`, or
`x` or `u` with two or four hexadecimal digits in braces. A literal ends on the line it begins on.
The text is read one character at a time, so that a malformed literal is reported at the first
character that cannot go on; only a surrogate is found later and reported where its digits begin.
-/

namespace KestrelCompiler

inductive StringFault where
  | unclosed
  | lineBreak
  | unknownEscape (letter : Char)
  | openingBrace
  | digit
  | closingBrace
  | surrogate (value : Nat)

namespace StringFault

def message : StringFault → String
  | unclosed => "expected closing quote `\"`"
  | lineBreak => "unterminated string"
  | unknownEscape letter => "unknown escape sequence `\\" ++ String.singleton letter ++ "`"
  | openingBrace => "expected `\x7b`"
  | digit => "expected hexadecimal digit"
  | closingBrace => "expected `\x7d`"
  | surrogate value =>
    "invalid unicode scalar value 0x" ++ String.ofList (Text.hexadecimal value 4)

def problem (f : StringFault) (l : Location) : Problem where
  location := l
  message := f.message
  code := "E100"

end StringFault

namespace StringLiteral

/-- The character that a one-letter escape stands for. -/
def namedEscape? : Char → Option Char
  | 'n' => some '\n'
  | 'r' => some '\r'
  | 't' => some '\t'
  | '\\' => some '\\'
  | '"' => some '"'
  | _ => none

/-- The number of hexadecimal digits that an escape letter asks for. -/
def escapeDigits? : Char → Option Nat
  | 'u' => some 4
  | 'x' => some 2
  | _ => none

/-- Where a reader stands inside a literal. -/
inductive State where
  | plain
  /-- After a backslash. -/
  | escape
  /-- Before the brace of an escape with this many digits. -/
  | opening (digits : Nat)
  /-- Before the next of `left` digits; `first` is where the digits begin. -/
  | digits (left value : Nat) (first : Location)
  /-- Before the closing brace. -/
  | closing (value : Nat) (first : Location)

/-- What is wrong if the source ends here. -/
def State.endFault : State → StringFault
  | plain | escape => .unclosed
  | opening _ => .openingBrace
  | digits .. => .digit
  | closing .. => .closingBrace

/-- The inside of a literal: its decoded text, whether an escape was decoded, and the point of the
closing quotation mark. -/
structure Body where
  text : List Char
  decoded : Bool
  stop : Location

/-- Reads up to the closing quotation mark; `read` holds the decoded characters, last one first. -/
def readBody : State → List Char → Bool → Location → List Char → Except Problem Body
  | state, _, _, l, [] => .error (state.endFault.problem l)
  | .plain, read, decoded, l, c :: rest =>
    if c = '"' then .ok ⟨read.reverse, decoded, l⟩
    else if c = '\\' then readBody .escape read true (l.advance c) rest
    else if c = '\n' || c = '\r' then .error (StringFault.lineBreak.problem l)
    else readBody .plain (c :: read) decoded (l.advance c) rest
  | .escape, read, decoded, l, c :: rest =>
    match namedEscape? c, escapeDigits? c with
    | some value, _ => readBody .plain (value :: read) decoded (l.advance c) rest
    | none, some digits => readBody (.opening digits) read decoded (l.advance c) rest
    | none, none =>
      if c = '\n' || c = '\r' then .error (StringFault.lineBreak.problem l)
      else .error ((StringFault.unknownEscape c).problem l)
  | .opening digits, read, decoded, l, c :: rest =>
    if c = '{' then readBody (.digits digits 0 (l.advance c)) read decoded (l.advance c) rest
    else .error (StringFault.openingBrace.problem l)
  | .digits left value first, read, decoded, l, c :: rest =>
    match Text.hexValue? c with
    | some d =>
      let state := if left ≤ 1 then State.closing (16 * value + d) first
        else .digits (left - 1) (16 * value + d) first
      readBody state read decoded (l.advance c) rest
    | none => .error (StringFault.digit.problem l)
  | .closing value first, read, decoded, l, c :: rest =>
    if c ≠ '}' then .error (StringFault.closingBrace.problem l)
    else if Text.isSurrogate value then .error ((StringFault.surrogate value).problem first)
    else readBody .plain (Char.ofNat value :: read) decoded (l.advance c) rest

/-- The characters from a point on, if the point lies in the source. -/
def textAt (c : Cursor) (l : Location) : List Char :=
  if 0 ≤ l.offset then c.source.drop l.offset.toNat else []

end StringLiteral

/-- A string literal. Its span takes in both quotation marks. -/
def Rule.stringLiteral : Rule Token := fun c =>
  let c := c.skipBlank
  match Lexeme.literal "\"" c with
  | some mark =>
    match StringLiteral.readBody .plain [] false mark.stop (StringLiteral.textAt c mark.stop) with
    | .ok body =>
      let stop := body.stop.advance '"'
      (.matched ⟨⟨c.location, stop⟩, String.ofList body.text, body.decoded⟩, c.moveTo stop)
    | .error problem => (.failed problem, c)
  | none => (.noMatch, c)

end KestrelCompiler
