import KestrelCompiler.Location

/-!
What is wrong with a program, at one point of it, and the diagnostics made from it. A diagnostic
names its file and may point at several places.
-/

namespace KestrelCompiler

/-- A fault at one point. The hint is shown under the place, the notes after the snippet. -/
structure Problem where
  location : Location
  message : String
  code : String := "E200"
  hint : String := ""
  notes : List String := []
  deriving DecidableEq

/-- A place that a diagnostic points at. -/
structure Label where
  span : Span
  message : String := ""
  deriving DecidableEq

structure Diagnostic where
  code : String
  message : String
  filename : String := "<stdin>"
  labels : List Label := []
  notes : List String := []
  deriving DecidableEq

namespace Problem

def describe (p : Problem) : String :=
  p.location.describe ++ ": " ++ p.message

/-- The diagnostic points at the empty span where the fault is. -/
def diagnostic (p : Problem) (filename : String) : Diagnostic where
  code := p.code
  message := p.message
  filename := filename
  labels := [⟨⟨p.location, p.location⟩, p.hint⟩]
  notes := p.notes

end Problem

/-- One line for a list of diagnostics: their number and their messages. -/
def Diagnostic.summary (diagnostics : List Diagnostic) : String :=
  toString diagnostics.length ++ " error(s): " ++ "; ".intercalate (diagnostics.map (·.message))

end KestrelCompiler
