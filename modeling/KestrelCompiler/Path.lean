/-!
Paths as they are written. Empty parts and single points mean nothing; two points are kept.
-/

namespace KestrelCompiler

/-- `root` is empty for a relative path and holds one or two slashes for an absolute one. -/
structure Path where
  root : String
  parts : List String
  deriving DecidableEq

namespace Path

/-- The text between slashes, empty parts included. -/
def splitSlashes (text : String) : List String :=
  (text.toList.splitOn '/').map String.ofList

/-- Exactly two slashes at the start are kept, any other number of them counts as one. -/
def rootOf (text : String) : String :=
  match (text.toList.takeWhile (· = '/')).length with
  | 0 => ""
  | 2 => "//"
  | _ => "/"

/-- The most bytes that one part may have where there are files. -/
def maxPartBytes : Nat := 255

/-- The most bytes that a whole path may have. -/
def maxBytes : Nat := 4095

def isLongPart (part : String) : Bool :=
  maxPartBytes < part.utf8ByteSize

def ofString (text : String) : Path where
  root := rootOf text
  parts := (splitSlashes text).filter fun part => part ≠ "" && part ≠ "."

def render (p : Path) : String :=
  if p.root = "" && p.parts.isEmpty then "." else p.root ++ "/".intercalate p.parts

def name (p : Path) : String :=
  p.parts.getLastD ""

/-- The path without its last part. -/
def parent (p : Path) : Path :=
  { p with parts := p.parts.dropLast }

/-- The path with another last part. -/
def withName (p : Path) (name : String) : Path :=
  { p with parts := p.parts.dropLast ++ [name] }

/-- A name before its last point, and the point with what follows. A point at either end of the name
does not count. -/
def splitSuffix (name : String) : String × String :=
  let reversed := name.toList.reverse
  let suffix := reversed.takeWhile (· ≠ '.')
  let stem := (reversed.dropWhile (· ≠ '.')).drop 1
  if suffix.isEmpty || stem.isEmpty then (name, "")
  else (String.ofList stem.reverse, String.ofList ('.' :: suffix.reverse))

def stem (p : Path) : String :=
  (splitSuffix p.name).1

/-- The path with another suffix, which begins with a point. -/
def withSuffix (p : Path) (suffix : String) : Path :=
  p.withName (p.stem ++ suffix)

end Path

end KestrelCompiler
