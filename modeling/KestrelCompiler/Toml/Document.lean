import KestrelCompiler.Toml.Scalar

/-!
Configuration files as tables. A table may be written in several places, but each key has one
value, and a table or array that was written out as a value cannot be added to later. Of several
faults the first one in the file is told.
-/

namespace KestrelCompiler.Toml

/-- Reads a part of a file and gives the rest of it. -/
abbrev Parser (α : Type) := List Char → Except Fault (α × List Char)

/-- Where nothing can be read, the file is malformed. -/
def wellFormed {α : Type} : Option α → Except Fault α
  | some a => .ok a
  | none => .error .malformed

/-- The parts of a dotted key. -/
abbrev Key := List String

namespace Table

/-- Changes the table under a key, where missing tables are made. If `intoArrays`, an array of
tables stands for its last table; no other value may be on the way. -/
def modifyAt (intoArrays : Bool) (f : Table → Option Table) : Key → Table → Option Table
  | [], table => f table
  | part :: rest, table =>
    match table.lookup part with
    | none => do
      let inner ← modifyAt intoArrays f rest []
      some (table ++ [(part, .table inner)])
    | some (.table inner) => do
      let inner ← modifyAt intoArrays f rest inner
      some (replace table part (.table inner))
    | some (.array items) =>
      match intoArrays, items.getLast? with
      | true, some (.table inner) => do
        let inner ← modifyAt intoArrays f rest inner
        some (replace table part (.array (items.dropLast ++ [.table inner])))
      | _, _ => none
    | some _ => none
where
  replace (table : Table) (key : String) (value : Value) : Table :=
    table.map fun entry => if entry.1 = key then (key, value) else entry

/-- Adds a key that the table does not have. -/
def add (key : String) (value : Value) (table : Table) : Option Table :=
  if (table.lookup key).isSome then none else some (table ++ [(key, value)])

/-- Adds an empty table to the array under a key, which may be missing. -/
def addToArray (key : String) (table : Table) : Option Table :=
  match table.lookup key with
  | none => some (table ++ [(key, .array [.table []])])
  | some (.array items) => some (modifyAt.replace table key (.array (items ++ [.table []])))
  | some _ => none

end Table

def isContainer : Value → Bool
  | .array _ | .table _ => true
  | _ => false

/-- Tells whether one of the keys leads to `key` or to a table around it. -/
def covers (keys : List Key) (key : Key) : Bool :=
  keys.any (·.isPrefixOf key)

def isBareKeyChar (c : Char) : Bool :=
  c.isAlphanum || c = '-' || c = '_'

def keyPart : Reader String
  | [] => none
  | c :: rest =>
    if c = '"' then (basicText rest).map fun (text, rest) => (String.ofList text, rest)
    else if c = '\'' then (literalText rest).map fun (text, rest) => (String.ofList text, rest)
    else if isBareKeyChar c then
      some (String.ofList (c :: rest.takeWhile isBareKeyChar), rest.dropWhile isBareKeyChar)
    else none

/-- Parts with points between them, blanks around the points and after the last part. -/
def keyParts : Nat → Reader Key
  | 0, _ => none
  | fuel + 1, text => do
    let (part, rest) ← keyPart text
    match skipBlanks rest with
    | '.' :: rest =>
      let (parts, rest) ← keyParts fuel (skipBlanks rest)
      some (part :: parts, rest)
    | rest => some ([part], rest)

def key : Reader Key := fun text =>
  keyParts (text.length + 1) text

/-- Skips space and comments between the items of an array. -/
def skipSpaceAndComments : Nat → List Char → Option (List Char)
  | 0, _ => none
  | fuel + 1, text =>
    match skipSpace text with
    | '#' :: rest => do skipSpaceAndComments fuel (← skipComment ('#' :: rest))
    | rest => some rest

def gap (text : List Char) : Option (List Char) :=
  skipSpaceAndComments (text.length + 1) text

mutual

def value : Nat → Parser Value
  | 0, _ => .error .malformed
  | fuel + 1, text =>
    match text with
    | '"' :: '"' :: '"' :: rest => wellFormed ((basicBlock rest).map asString)
    | '"' :: rest => wellFormed ((basicText rest).map asString)
    | '\'' :: '\'' :: '\'' :: rest => wellFormed ((literalBlock rest).map asString)
    | '\'' :: rest => wellFormed ((literalText rest).map asString)
    | '[' :: rest => do
      let (items, rest) ← arrayItems fuel [] (← wellFormed (gap rest))
      .ok (.array items, rest)
    | '{' :: rest =>
      match skipBlanks rest with
      | '}' :: rest => .ok (.table [], rest)
      | rest => do
        let (table, rest) ← inlineEntries fuel [] [] rest
        .ok (.table table, rest)
    | _ => bareValue text
where
  asString : List Char × List Char → Value × List Char
    | (text, rest) => (.string (String.ofList text), rest)

/-- The items after those read, up to the closing bracket. -/
def arrayItems : Nat → List Value → Parser (List Value)
  | 0, _, _ => .error .malformed
  | fuel + 1, items, text =>
    match text with
    | ']' :: rest => .ok (items, rest)
    | _ => do
      let (item, rest) ← value fuel text
      match ← wellFormed (gap rest) with
      | ']' :: rest => .ok (items ++ [item], rest)
      | ',' :: rest => arrayItems fuel (items ++ [item]) (← wellFormed (gap rest))
      | _ => .error .malformed

/-- The entries after those read, up to the closing brace; `closed` holds the keys of the tables and
arrays among them. -/
def inlineEntries : Nat → Table → List Key → Parser Table
  | 0, _, _, _ => .error .malformed
  | fuel + 1, table, closed, text => do
    let (path, item, rest) ← keyValue fuel text
    if covers closed path then .error .malformed
    let table ← wellFormed
      (table.modifyAt false (Table.add (path.getLastD "") item) path.dropLast)
    let closed := if isContainer item then path :: closed else closed
    match skipBlanks rest with
    | '}' :: rest => .ok (table, rest)
    | ',' :: rest => inlineEntries fuel table closed (skipBlanks rest)
    | _ => .error .malformed

def keyValue : Nat → List Char → Except Fault (Key × Value × List Char)
  | 0, _ => .error .malformed
  | fuel + 1, text => do
    let (path, rest) ← wellFormed (key text)
    match rest with
    | '=' :: rest =>
      let (item, rest) ← value fuel (skipBlanks rest)
      .ok (path, item, rest)
    | _ => .error .malformed

end

/-- A file read so far. -/
structure Document where
  root : Table := []
  /-- The table that keys are added to. -/
  header : Key := []
  /-- Tables that cannot be opened again by their name in brackets. -/
  opened : List Key := []
  /-- Tables made by dotted keys, which join the opened ones at the next header. -/
  pending : List Key := []
  /-- Tables and arrays written out as values. -/
  closed : List Key := []

namespace Document

/-- The proper parts of a dotted key: `a` and `a.b` for `a.b.c`. -/
def properParts (path : Key) : List Key :=
  (List.range' 1 (path.length - 1)).map path.take

def addValue (d : Document) (path : Key) (item : Value) : Option Document := do
  let tables := (properParts path).map (d.header ++ ·)
  let parent := d.header ++ path.dropLast
  if tables.any d.opened.contains || covers d.closed parent then none
  let root ← d.root.modifyAt true (Table.add (path.getLastD "") item) parent
  let closed := if isContainer item then (d.header ++ path) :: d.closed else d.closed
  some { d with root := root, pending := tables ++ d.pending, closed := closed }

def settle (d : Document) : Document :=
  { d with opened := d.pending ++ d.opened, pending := [] }

/-- Opens a table by its name in brackets. -/
def openTable (d : Document) (path : Key) : Option Document := do
  let d := d.settle
  if d.opened.contains path || covers d.closed path then none
  let root ← d.root.modifyAt true some path
  some { d with root := root, header := path, opened := path :: d.opened }

/-- Opens a further table of an array by its name in double brackets, with nothing said yet about
the tables below it. -/
def openItem (d : Document) (path : Key) : Option Document := do
  let d := d.settle
  if covers d.closed path then none
  let root ← d.root.modifyAt true (Table.addToArray (path.getLastD "")) path.dropLast
  let keep := fun (k : Key) => !path.isPrefixOf k
  some { d with
    root := root
    header := path
    opened := path :: d.opened.filter keep
    closed := d.closed.filter keep }

/-- Reads a header or a key with its value, if one begins here. -/
def statement (d : Document) : Parser Document
  | '[' :: '[' :: rest => wellFormed do
    let (path, rest) ← key (skipBlanks rest)
    match rest with
    | ']' :: ']' :: rest => some (← d.openItem path, rest)
    | _ => none
  | '[' :: rest => wellFormed do
    let (path, rest) ← key (skipBlanks rest)
    match rest with
    | ']' :: rest => some (← d.openTable path, rest)
    | _ => none
  | text => do
    let (path, item, rest) ← keyValue (2 * text.length + 2) text
    .ok (← wellFormed (d.addValue path item), rest)

/-- Reads line by line; a line holds at most one statement and a comment. -/
def read : Nat → Document → List Char → Except Fault Document
  | 0, _, _ => .error .malformed
  | fuel + 1, d, text => do
    let (d, rest) ← match skipBlanks text with
      | [] => .ok (d, [])
      | c :: rest => if c = '\n' || c = '#' then .ok (d, c :: rest) else d.statement (c :: rest)
    match ← wellFormed (skipComment (skipBlanks rest)) with
    | [] => .ok d
    | '\n' :: rest => read fuel d rest
    | _ => .error .malformed

end Document

/-- A carriage return before a line feed does not count. -/
def dropReturns : List Char → List Char
  | '\r' :: '\n' :: rest => '\n' :: dropReturns rest
  | c :: rest => c :: dropReturns rest
  | [] => []

/-- The table that a whole file stands for. -/
def parse (text : String) : Except Fault Table :=
  let text := dropReturns text.toList
  (Document.read (text.length + 1) {} text).map (·.root)

end KestrelCompiler.Toml
