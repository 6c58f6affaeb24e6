import KestrelCompiler.Failure
import KestrelCompiler.Toml.Display
import KestrelCompiler.Toml.Document

/-!
Configurations. The nearest file `kestrel.toml` at or above a source file governs it; without one,
every setting has its default.
-/

namespace KestrelCompiler

open Toml (Value Table)

/-- The width of integers. `true` is taken for one bit. -/
inductive IntWidth where
  | bits (count : Nat)
  | one
  deriving DecidableEq

namespace IntWidth

def size : IntWidth → Nat
  | bits count => count
  | one => 1

def ofValue? : Value → Option IntWidth
  | .integer value => if 0 < value then some (bits value.toNat) else none
  | .boolean true => some one
  | _ => none

end IntWidth

/-- Name, version and triple are taken as they are written, whatever their type. -/
structure Config where
  name : Value := .string "untitled"
  version : Value := .string "0.0.0"
  targetTriple : Value := .string ""
  intWidth : IntWidth := .bits 64

namespace Config

def isString (text : String) : Value → Bool
  | .string t => t = text
  | _ => false

/-- Tells whether every setting has its default. -/
def isDefault (c : Config) : Bool :=
  isString "untitled" c.name && isString "0.0.0" c.version && isString "" c.targetTriple &&
    c.intWidth = .bits 64

/-- The triple that a module is given; a setting that stands for nothing leaves it unknown. -/
def triple? (c : Config) : Option String :=
  if c.targetTriple.isNothing then none else some c.targetTriple.plain

def section? (table : Table) (name : String) : Except Failure (Option Table) :=
  match table.lookup name with
  | none => .ok none
  | some (.table entries) => .ok (some entries)
  | some _ => .error .notTable

/-- `path` is named in the problem with a width. -/
def ofTable (path : String) (table : Table) : Except Failure Config := do
  let config : Config := {}
  let config ← match ← section? table "package" with
    | none => pure config
    | some entries =>
      pure { config with
        name := (entries.lookup "name").getD config.name
        version := (entries.lookup "version").getD config.version }
  match ← section? table "build" with
  | none => pure config
  | some entries =>
    match IntWidth.ofValue? ((entries.lookup "int_width").getD (.integer 64)) with
    | none => .error (.invalidWidth path)
    | some width =>
      pure { config with
        targetTriple := (entries.lookup "target_triple").getD config.targetTriple
        intWidth := width }

/-- Reads a configuration from the bytes of its file. -/
def ofBytes (path : String) (bytes : ByteArray) : Except Failure Config := do
  match Toml.parse (← Failure.decode bytes) with
  | .ok table => ofTable path table
  | .error .malformed => .error .malformedConfig
  | .error (.longInteger digits) => .error (.unreadableInteger digits)

def load (d : Disk) (path : Path) : Except Failure Config := do
  ofBytes path.render (← Failure.ofDisk (d.read path))

def fileAt (place : Place) : Place :=
  place ++ [Failure.configName]

/-- A directory and those around it, the innermost first. -/
def levels (place : Place) : List Place :=
  (List.range (place.length + 1)).reverse.map place.take

/-- The first of several places where anything stands. -/
def firstHeld? (d : Disk) : List Place → Except DiskError (Option Place)
  | [] => .ok none
  | place :: rest => do
    match ← d.probe place with
    | some _ => .ok (some place)
    | none => firstHeld? d rest

/-- The nearest configuration file in a directory or above it. -/
def findAbove? (d : Disk) (place : Place) : Except DiskError (Option Place) :=
  firstHeld? d ((levels place).map fileAt)

/-- Where a search for a configuration begins: at the path, or above it if it is a file. -/
def searchStart (d : Disk) (path : Path) : Except DiskError Place := do
  if path.parts.any (·.toList.contains '\x00') then .error .nullCharacter
  let place := d.resolve path
  match ← d.probe place with
  | some (.file _) => .ok place.dropLast
  | _ => .ok place

/-- The configuration file that governs a path. -/
def find (d : Disk) (path : Path) : Except Failure Place := do
  match ← Failure.ofDisk (do findAbove? d (← searchStart d path)) with
  | some place => .ok place
  | none => .error .noConfig

/-- How a configuration came about. -/
inductive Origin where
  | loaded (path : String) (package : Value)
  | defaults

/-- The configuration that governs a source file. A file that is gone by the time it is read counts
as none. -/
def governing (d : Disk) (path : Path) : Except Failure (Config × Origin) :=
  match find d path with
  | .error .noConfig => .ok ({}, .defaults)
  | .error f => .error f
  | .ok place =>
    match d.entry? place with
    | none => .ok ({}, .defaults)
    | some (.directory _) => .error (.disk .isDirectory)
    | some (.file bytes) =>
      (ofBytes place.render bytes).map fun config =>
        (config, .loaded place.render config.name)

end Config

end KestrelCompiler
