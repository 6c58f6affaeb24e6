import KestrelCompiler.Path

/-!
Files and directories. A disk holds one tree, from its root on, with a working directory in it.
There are no links, so that going up undoes going down; above the root there is the root again.
There are no permissions either: whatever is there may be read and written.
-/

namespace KestrelCompiler

inductive Entry where
  | file (bytes : ByteArray)
  | directory (contents : List (String × Entry))

/-- The way from the root of the tree. -/
abbrev Place := List String

/-- A place as an absolute path. -/
def Place.render (place : Place) : String :=
  "/" ++ "/".intercalate place

inductive DiskError where
  | missing
  | isDirectory
  | notDirectory
  | nameTooLong
  /-- No file has a null character in its name. -/
  | nullCharacter
  /-- A directory cannot be made where there is a file. -/
  | fileExists

namespace Entry

/-- What stands below an entry. -/
def at? : Entry → Place → Option Entry
  | entry, [] => some entry
  | .file _, _ :: _ => none
  | .directory contents, name :: rest => (contents.lookup name).bind (·.at? rest)

/-- Goes down from an entry. The length of a name counts where it is looked up. -/
def descend : Entry → Place → Except DiskError Entry
  | entry, [] => .ok entry
  | .file _, _ :: _ => .error .notDirectory
  | .directory contents, name :: rest =>
    if Path.isLongPart name then .error .nameTooLong
    else
      match contents.lookup name with
      | none => .error .missing
      | some entry => entry.descend rest

/-- Puts an entry below another one; on the way there is a directory from then on. -/
def put (new : Entry) : Entry → Place → Entry
  | _, [] => new
  | .file _, name :: rest => .directory [(name, put new (.directory []) rest)]
  | .directory contents, name :: rest =>
    let old := (contents.lookup name).getD (.directory [])
    .directory ((name, put new old rest) :: contents.filter (·.1 ≠ name))

mutual

/-- The files at an entry and below it. -/
def files : Entry → List (Place × ByteArray)
  | .file bytes => [([], bytes)]
  | .directory contents => filesIn contents

def filesIn : List (String × Entry) → List (Place × ByteArray)
  | [] => []
  | (name, entry) :: rest =>
    (entry.files.map fun (place, bytes) => (name :: place, bytes)) ++ filesIn rest

end

end Entry

structure Disk where
  working : Place
  root : Entry := .directory []

namespace Disk

def entry? (d : Disk) (place : Place) : Option Entry :=
  d.root.at? place

/-- Where a walk along a path begins. -/
def origin (d : Disk) (path : Path) : Place :=
  if path.root = "" then d.working else []

/-- The place that a path names when its parts are taken at their word, whether or not there is
anything. -/
def resolve (d : Disk) (path : Path) : Place :=
  path.parts.foldl
    (fun place part => if part = ".." then place.dropLast else place ++ [part]) (d.origin path)

/-- What no path can be is refused before anything is looked up. -/
def checkText (text : String) : Except DiskError Unit :=
  if text.toList.contains '\x00' then .error .nullCharacter
  else if Path.maxBytes < text.utf8ByteSize then .error .nameTooLong
  else .ok ()

/-- Follows parts of a path from a place. Every part but the last has to be a directory; so has the
one before an empty part or a point. The length of a name counts where it is looked up. -/
def follow (d : Disk) : Place → List String → Except DiskError Place
  | place, [] => .ok place
  | place, part :: rest =>
    match d.entry? place with
    | none => .error .missing
    | some (.file _) => .error .notDirectory
    | some (.directory _) =>
      if part = "" || part = "." then d.follow place rest
      else if part = ".." then d.follow place.dropLast rest
      else if Path.isLongPart part then .error .nameTooLong
      else d.follow (place ++ [part]) rest

def look (d : Disk) (origin : Place) (parts : List String) : Except DiskError Entry := do
  match d.entry? (← d.follow origin parts) with
  | some entry => .ok entry
  | none => .error .missing

def find (d : Disk) (path : Path) : Except DiskError Entry := do
  checkText path.render
  d.look (d.origin path) path.parts

/-- What a text names that was not yet brought into the form of a path. -/
def findText (d : Disk) (text : String) : Except DiskError Entry := do
  checkText text
  if text = "" then .error .missing
  else d.look (d.origin (.ofString text)) (Path.splitSlashes text)

/-- What stands at a place, if anything does. Only a name that is too long is an error. -/
def probe (d : Disk) (place : Place) : Except DiskError (Option Entry) :=
  match checkText place.render, d.root.descend place with
  | .error .nameTooLong, _ | _, .error .nameTooLong => .error .nameTooLong
  | .ok (), .ok entry => .ok (some entry)
  | _, _ => .ok none

def read (d : Disk) (path : Path) : Except DiskError ByteArray := do
  match ← d.find path with
  | .file bytes => .ok bytes
  | .directory _ => .error .isDirectory

def put (d : Disk) (place : Place) (entry : Entry) : Disk :=
  { d with root := entry.put d.root place }

/-- Sees to it that there is a directory at a place. -/
def ensureDirectory (d : Disk) (place : Place) : Disk :=
  match d.entry? place with
  | some (.directory _) => d
  | _ => d.put place (.directory [])

/-- Writes a file into a directory that exists. -/
def write (d : Disk) (path : Path) (bytes : ByteArray) : Except DiskError Disk := do
  checkText path.render
  let place ← d.follow (d.origin path) path.parts
  match d.entry? place with
  | some (.directory _) => .error .isDirectory
  | _ => .ok (d.put place (.file bytes))

/-- Goes along parts of a path from a directory, and makes the directories that are missing. What
was made stays, even if the rest cannot be made. As long as nothing was `made`, a file with parts
behind it is found not to be a directory; from then on each part is asked for by itself. -/
def makeParts (d : Disk) (made : Bool) : Place → List String → Except DiskError Unit × Disk
  | _, [] => (.ok (), d)
  | place, part :: rest =>
    if part = ".." then d.makeParts made place.dropLast rest
    else if Path.isLongPart part then (.error .nameTooLong, d)
    else
      match d.entry? (place ++ [part]) with
      | none => (d.put (place ++ [part]) (.directory [])).makeParts true (place ++ [part]) rest
      | some (.directory _) => d.makeParts made (place ++ [part]) rest
      | some (.file _) =>
        (.error (if made || rest.isEmpty then .fileExists else .notDirectory), d)

/-- What came of a step, with the disk after it. A step that fails changes nothing. -/
def settle (d : Disk) : Except DiskError Disk → Except DiskError Unit × Disk
  | .ok d => (.ok (), d)
  | .error e => (.error e, d)

/-- Makes a directory and those around it. -/
def makeDirectory (d : Disk) (path : Path) : Except DiskError Unit × Disk :=
  match checkText path.render with
  | .ok () => d.makeParts false (d.origin path) path.parts
  | .error e => (.error e, d)

/-- Writes a file into a directory, which is made if need be. -/
def install (d : Disk) (path : Path) (bytes : ByteArray) : Except DiskError Unit × Disk :=
  match d.makeDirectory path.parent with
  | (.ok (), d) => d.settle (d.write path bytes)
  | failed => failed

/-- The files of a disk that an earlier state of it did not hold with the same content. -/
def changesFrom (d before : Disk) : List (Place × ByteArray) :=
  d.root.files.filter fun (place, bytes) =>
    match before.entry? place with
    | some (.file old) => bytes.data ≠ old.data
    | _ => true

end Disk

end KestrelCompiler
