/-!
Lines of a text. A snippet counts lines by every break that Unicode knows, while a file that is read
as a program first has its carriage returns replaced by line feeds.
-/

namespace KestrelCompiler.Text

def lineBreaks : List Char :=
  ['\n', '\r', '\x0b', '\x0c', '\x1c', '\x1d', '\x1e', '\x85', '\u2028', '\u2029']

/-- The lines without their breaks. A carriage return with a line feed is one break, and no empty
line follows the last break. -/
def lines : List Char → List (List Char)
  | [] => []
  | '\r' :: '\n' :: rest => [] :: lines rest
  | c :: rest =>
    if lineBreaks.contains c then [] :: lines rest
    else
      match lines rest with
      | [] => [[c]]
      | line :: others => (c :: line) :: others

def splitLines (text : String) : List String :=
  (lines text.toList).map String.ofList

/-- Writes each carriage return, alone or before a line feed, as one line feed. -/
def unifyBreaks : List Char → List Char
  | [] => []
  | '\r' :: '\n' :: rest => '\n' :: unifyBreaks rest
  | '\r' :: rest => '\n' :: unifyBreaks rest
  | c :: rest => c :: unifyBreaks rest

end KestrelCompiler.Text
