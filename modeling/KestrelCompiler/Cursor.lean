import KestrelCompiler.Text.Blank
import KestrelCompiler.Text.Slice
import KestrelCompiler.Token

/-!
A cursor over a source text. Every operation that looks for a lexeme first moves the cursor over
the blanks before it; looking for one that is absent moves it no further.
-/

namespace KestrelCompiler

structure Cursor where
  source : List Char
  location : Location := .start

namespace Cursor

def ofString (source : String) : Cursor where
  source := source.toList

def moveTo (c : Cursor) (l : Location) : Cursor :=
  { c with location := l }

/-- The number of characters that can still be read before the end of the source. -/
def remaining (c : Cursor) : Nat :=
  (c.source.length - c.location.offset).toNat

/-- The characters that reading one after the other meets. From a negative offset, which counts
from the end of the source, reading goes on at its start; before that there is nothing to read. -/
def ahead (c : Cursor) : List Char :=
  if 0 ≤ c.location.offset then c.source.drop c.location.offset.toNat
  else if -c.source.length ≤ c.location.offset then
    Text.sliceFrom c.source c.location.offset ++ c.source
  else []

/-- From before the start of the source, nothing can be read. -/
def isOutside (c : Cursor) : Bool :=
  c.location.offset < -c.source.length

def skipBlank (c : Cursor) : Cursor :=
  c.moveTo (c.location.walk (c.ahead.takeWhile Text.isBlank))

def atEnd (c : Cursor) : Bool :=
  c.source.length ≤ c.location.offset

/-- The character at a point, if the point lies in the source. -/
def charAt? (c : Cursor) (l : Location) : Option Char :=
  if 0 ≤ l.offset then c.source[l.offset.toNat]? else none

def peek? (c : Cursor) : Option Char :=
  c.charAt? c.location

/-- The source from a point on, if the point lies before its end. -/
def textFrom? (c : Cursor) (l : Location) : Option (List Char) :=
  if l.offset < c.source.length then some (Text.sliceFrom c.source l.offset) else none

/-- The source under a span that starts before the end of the source and ends at most there. -/
def textOf? (c : Cursor) (s : Span) : Option (List Char) :=
  if s.start.offset < c.source.length && s.stop.offset ≤ c.source.length then
    some (Text.slice c.source s.start.offset s.stop.offset)
  else none

/-- Moves forward to a point that the caller found; `none` if that would lead back. -/
def commit? (c : Cursor) (l : Location) : Option Cursor :=
  if l.index < c.location.index then none else some (c.moveTo l)

end Cursor

/-- A kind of lexeme: its span, if one stands at the very cursor. -/
abbrev Lexeme := Cursor → Option Span

namespace Lexeme

/-- The longest run of accepted characters. -/
def run (accepts : Char → Bool) : Lexeme := fun c =>
  match c.ahead.takeWhile accepts with
  | [] => none
  | text => some ⟨c.location, c.location.walk text⟩

/-- A fixed text; the empty one is never found. -/
def literal (text : String) : Lexeme := fun c =>
  if text.toList ≠ [] && text.toList.isPrefixOf (Text.sliceFrom c.source c.location.offset) then
    some ⟨c.location, c.location.walk text.toList⟩
  else none

/-- A fixed text with a blank or the end of the source after it. -/
def keyword (text : String) : Lexeme := fun c =>
  (literal text c).filter fun span => (c.charAt? span.stop).all Text.isBlank

/-- A run of characters other than blanks. -/
def chunk : Lexeme :=
  run fun c => !Text.isBlank c

end Lexeme

namespace Cursor

/-- Reads a lexeme after the blanks. -/
def takeLexeme (c : Cursor) (lexeme : Lexeme) : Option Token × Cursor :=
  match lexeme c.skipBlank with
  | some span => (some (Token.ofSpan c.source span), c.moveTo span.stop)
  | none => (none, c.skipBlank)

/-- Reads one character after the blanks. -/
def takeChar (c : Cursor) : Option Char × Cursor :=
  match c.skipBlank.peek? with
  | some ch => (some ch, c.moveTo (c.skipBlank.location.advance ch))
  | none => (none, c.skipBlank)

end Cursor

end KestrelCompiler
