import KestrelCompiler.CommandLine.Commands
import KestrelCompiler.CommandLine.Usage

/-!
From arguments to commands. All arguments are looked at before a command begins its work.
-/

namespace KestrelCompiler.CommandLine

open Shell

def usageError {α : Type} (l : Level) (e : UsageError) : Action α := do
  printError (e.render l)
  exit 2

/-- Help and version end the run; the one given first counts. -/
def answerInquiry (l : Level) (given : List Given) : Action Unit :=
  match given.find? fun g => g.option = .help || g.option = .version with
  | none => pure ()
  | some g => do
    print (if g.option = .help then l.help else "kestrel, version " ++ version)
    exit 0

def readLevel (l : Level) (mixed : Bool) (args : List String) :
    Action (List Given × List String) := do
  match readOptions l.forms mixed args with
  | .error e => usageError l (.option e)
  | .ok (given, others) =>
    answerInquiry l given
    pure (given, others)

/-- A file to read has to exist. -/
def requireFile (c : Command) (file : String) : Action Unit := do
  let argument := "'" ++ c.files ++ "'"
  match (← Step.get).disk.findText file with
  | .error .nullCharacter => attempt (.error (.disk .nullCharacter))
  | .error _ => usageError (.command c) (.noSuchFile argument file)
  | .ok (.directory _) => usageError (.command c) (.isDirectory argument file)
  | .ok (.file _) => pure ()

def requireFiles (c : Command) : List String → Action Unit
  | [] => pure ()
  | file :: rest => do
    requireFile c file
    requireFiles c rest

/-- A file to write may be missing, but it is no directory. -/
def requireOutput (file : String) : Action Unit := do
  match (← Step.get).disk.findText file with
  | .error .nullCharacter => attempt (.error (.disk .nullCharacter))
  | .ok (.directory _) => usageError (.command .build) (.isDirectory "'-o' / '--output'" file)
  | _ => pure ()

/-- The value of the last output option. -/
def outputOption (given : List Given) : Option String :=
  (given.filter (·.option = .output)).getLast?.bind (·.value)

def runCommand (c : Command) (args : List String) : Action Unit := do
  let (given, files) ← readLevel (.command c) true args
  let output := outputOption given
  match output with
  | some file => requireOutput file
  | none => pure ()
  match c, files with
  | _, [] => usageError (.command c) (.missingArgument c.files)
  | .check, files =>
    requireFiles .check files
    check files
  | .view, file :: extra =>
    requireFile .view file
    requireNone .view extra
    view file
  | .build, file :: extra =>
    requireFile .build file
    requireNone .build extra
    build file output
where
  requireNone (c : Command) : List String → Action Unit
    | [] => pure ()
    | extra => usageError (.command c) (.extraArguments extra)

/-- A word that is no command is looked at as an option before it is refused. -/
def refuseCommand (name : String) (args : List String) : Action Unit := do
  let _ ← readLevel .program false (name :: args)
  usageError .program (.unknownCommand name)

def runProgram (args : List String) : Action Unit := do
  if args.isEmpty then
    printError Level.program.help
    exit 2
  let (given, others) ← readLevel .program false args
  match others with
  | [] => usageError .program .missingCommand
  | name :: args =>
    match Command.all.find? (·.name = name) with
    | none => refuseCommand name args
    | some c =>
      Step.update fun s => { s with
        verbose := given.any (·.option = .verbose)
        reporter := { color := !given.any (·.option = .noColor) } }
      runCommand c args

/-- What a run leaves behind. A failure that no command expects ends it with code 1. -/
structure Run where
  exitCode : Nat
  failure : Option Failure
  shell : Shell

/-- Runs the program on a disk. -/
def run (disk : Disk) (styled : Bool) (args : List String) : Run :=
  match runProgram args { disk, styled, verbose := false, reporter := { color := true } } with
  | (.ok (), shell) => ⟨0, none, shell⟩
  | (.error (.exit code), shell) => ⟨code, none, shell⟩
  | (.error (.failure f), shell) => ⟨1, some f, shell⟩

end KestrelCompiler.CommandLine
