import KestrelCompiler.Failure
import KestrelCompiler.Problem
import KestrelCompiler.Text.Lines
import KestrelCompiler.Text.Style

/-!
Reports of diagnostics. Each place is shown with its source line and a row of carets under it. A
reporter knows the lines of the sources that were registered with it; other files are read once,
when a diagnostic first points into them.
-/

namespace KestrelCompiler

structure Reporter where
  color : Bool
  /-- Lines by file name, the latest first. A file that could not be found has no lines. -/
  sources : List (String × List String) := []

namespace Reporter

def register (r : Reporter) (filename : String) (lines : List String) : Reporter :=
  { r with sources := (filename, lines) :: r.sources }

def addSource (r : Reporter) (filename source : String) : Reporter :=
  r.register filename (Text.splitLines source)

/-- The lines of a file on disk; none when there is no such file. -/
def readLines (d : Disk) (filename : String) : Except Failure (List String) := do
  match d.find (.ofString filename) with
  | .ok (.file bytes) =>
    let text ← Failure.decode bytes
    .ok (Text.splitLines (String.ofList (Text.unifyBreaks text.toList)))
  | _ => .ok []

/-- The lines of a file, which stay the same from the first time they are asked for. -/
def linesOf (r : Reporter) (d : Disk) (filename : String) :
    Except Failure (List String) × Reporter :=
  match r.sources.lookup filename with
  | some lines => (.ok lines, r)
  | none =>
    match readLines d filename with
    | .ok lines => (.ok lines, r.register filename lines)
    | .error e => (.error e, r)

def paint (color : Bool) (style text : String) : String :=
  if color then style ++ text ++ Text.Style.reset else text

def spaces (n : Nat) : String :=
  String.ofList (List.replicate n ' ')

/-- A line number, right-aligned in four columns. -/
def gutter (line : Int) : String :=
  let number := toString (line + 1)
  spaces (4 - number.length) ++ number

def barred (color : Bool) (gutter rest : String) : String :=
  "  " ++ paint color Text.Style.boldBlue (gutter ++ " |") ++ rest

def header (color : Bool) (d : Diagnostic) : String :=
  paint color Text.Style.boldRed ("error[" ++ d.code ++ "]") ++
    paint color Text.Style.bold (": " ++ d.message)

/-- The carets under a place on one line; at least one. -/
def carets (color : Bool) (s : Span) : Except Failure String := do
  let padding ← Failure.ofRow (Text.row ' ' s.start.column)
  let carets ← Failure.ofRow (Text.row '^' (max 1 (s.stop.column - s.start.column)))
  .ok (" " ++ padding ++ paint color Text.Style.boldRed carets)

def lineAt? (lines : List String) (line : Int) : Option String :=
  if 0 ≤ line then lines[line.toNat]? else none

/-- A source line with its number, and carets under it if the place ends on that line. -/
def snippet (color : Bool) (line : String) (s : Span) : Except Failure (List String) := do
  let shown := barred color (gutter s.start.line) (" " ++ line)
  if s.start.line = s.stop.line then .ok [shown, barred color "  " (← carets color s)]
  else .ok [shown]

/-- The lines of a report that belong to one place. -/
def labelLines (color : Bool) (filename : String) (lines : List String) (l : Label) :
    Except Failure (List String) := do
  let place := "  " ++ paint color Text.Style.boldBlue "-->" ++ " " ++ filename ++ ":" ++
    l.span.start.describe
  let shown ← match lineAt? lines l.span.start.line with
    | some line => snippet color line l.span
    | none => .ok []
  let hint := if l.message = "" then []
    else [barred color "  " ("   " ++ paint color Text.Style.boldRed l.message)]
  .ok ([place, barred color "  " ""] ++ shown ++ hint)

def noteLine (color : Bool) (note : String) : String :=
  "  " ++ paint color Text.Style.boldBlue "=" ++ " note: " ++ note

/-- The lines for all places of a file. -/
def labelsLines (r : Reporter) (d : Disk) (filename : String) :
    List Label → Except Failure (List String) × Reporter
  | [] => (.ok [], r)
  | l :: rest =>
    match r.linesOf d filename with
    | (.error e, r) => (.error e, r)
    | (.ok lines, r) =>
      match labelLines r.color filename lines l with
      | .error e => (.error e, r)
      | .ok shown =>
        match r.labelsLines d filename rest with
        | (.error e, r) => (.error e, r)
        | (.ok others, r) => (.ok (shown ++ others), r)

def render (r : Reporter) (d : Disk) (diagnostic : Diagnostic) :
    Except Failure String × Reporter :=
  match r.labelsLines d diagnostic.filename diagnostic.labels with
  | (.error e, r) => (.error e, r)
  | (.ok lines, r) =>
    let all := header r.color diagnostic :: lines ++ diagnostic.notes.map (noteLine r.color)
    (.ok ("\n".intercalate all), r)

end Reporter

end KestrelCompiler
