import KestrelCompiler.Location
import KestrelCompiler.Text.Quoted
import KestrelCompiler.Text.Slice

/-!
Lexemes of a program. The text of a token is the source text under its span, save for string
literals, whose span includes the quotation marks while the text is what stands between them.
-/

namespace KestrelCompiler

/-- A lexeme. `decoded` tells that escapes were replaced, so that `text` is no part of the source. -/
structure Token where
  span : Span
  text : String
  decoded : Bool := false
  deriving DecidableEq

namespace Token

/-- A token whose text stands in the source between two code point offsets. -/
def borrowed (source : List Char) (span : Span) (start stop : Int) : Token where
  span := span
  text := String.ofList (Text.slice source start stop)

/-- The token that covers a span of the source. -/
def ofSpan (source : List Char) (span : Span) : Token :=
  borrowed source span span.start.offset span.stop.offset

/-- Tokens are the same when place and text agree, however the text came about. -/
def same (a b : Token) : Bool :=
  a.span = b.span && a.text = b.text

def describe (t : Token) : String :=
  "Token(" ++ Text.quote t.text ++ " @ " ++ t.span.start.describe ++ ")"

/-- The quoted text, with a word on whether it was decoded. -/
def describeText (t : Token) : String :=
  if t.decoded then "Owned(text=" ++ Text.quote t.text ++ ")"
  else "Borrowed(" ++ Text.quote t.text ++ ")"

end Token

end KestrelCompiler
