import KestrelCompiler.CommandLine.Shell
import KestrelCompiler.Config
import KestrelCompiler.Emitter
import KestrelCompiler.Outline

/-!
The commands: checking files, viewing the outline of one, and building one.
-/

namespace KestrelCompiler.CommandLine

open Shell

/-- The text of a source file, with its line breaks unified. -/
def readSource (path : Path) : Action String := do
  let bytes ← attempt (Failure.ofDisk ((← Step.get).disk.read path))
  let text ← attempt (Failure.decode bytes)
  pure (String.ofList (Text.unifyBreaks text.toList))

/-- Reads the program in a file, or reports its first fault. -/
def readProgram (path : Path) : Action (Option Program) := do
  let source ← readSource path
  Step.update fun s => { s with reporter := s.reporter.addSource path.render source }
  match Program.parse source with
  | .ok program =>
    log "parser" ("parsed " ++ toString program.declarations.length ++ " declaration(s) from " ++
      path.render)
    pure (some program)
  | .error problem =>
    log "parser" ("parse of " ++ path.render ++ " failed at " ++ problem.location.describe)
    report (problem.diagnostic path.render)
    pure none

/-- Reads files one after the other and tells whether one of them has a fault. -/
def checkAll : List String → Action Bool
  | [] => pure false
  | file :: rest => do
    let program ← readProgram (.ofString file)
    let others ← checkAll rest
    pure (program.isNone || others)

def check (files : List String) : Action Unit := do
  if ← checkAll files then exit 1
  print ("checked " ++ toString files.length ++ " file(s), no errors")

/-- The program in a file; a fault ends the command. -/
def requireProgram (path : Path) : Action Program := do
  match ← readProgram path with
  | some program => pure program
  | none => exit 1

/-- Prints the lines of an outline one by one. -/
def printLines : List String → Action Unit
  | [] => pure ()
  | line :: rest => do
    print line
    printLines rest

def view (file : String) : Action Unit := do
  let program ← requireProgram (.ofString file)
  printLines (program.outline.linesOf 0)

def logOrigin (path : Path) : Config.Origin → Action Unit
  | .loaded config package =>
    log "config" ("loaded config " ++ config ++ " for package " ++ package.plain)
  | .defaults =>
    log "config" ("no " ++ Failure.configName ++ " above " ++ path.render ++ ", using defaults")

def logEvents : List Event → Action Unit
  | [] => pure ()
  | .lowering function :: rest => do
    log "codegen" ("lowering function " ++ function)
    logEvents rest
  | .unreachable block :: rest => do
    log "codegen" ("skipping unreachable statement at " ++ block.describe)
    logEvents rest

/-- The module of a program under a configuration, named after its source file. -/
def emitterFor (program : Program) (config : Config) (path : Path) : Emitter :=
  .new program config.intWidth.size path.stem (config.triple?.getD unknownTriple)

/-- Where a module is written: to `output`, unless that is absent or empty. -/
def outputPath (path : Path) : Option String → Path
  | none => path.withSuffix ".ll"
  | some output => if output = "" then path.withSuffix ".ll" else .ofString output

/-- Numbers of too many digits end a command where they would be written. -/
def requireWritable (writable : Bool) : Action Unit :=
  if writable then pure () else attempt (.error .unwritableInteger)

def build (file : String) (output : Option String) : Action Unit := do
  let path := Path.ofString file
  let program ← requireProgram path
  let (config, origin) ← attempt (Config.governing (← Step.get).disk path)
  logOrigin path origin
  let (result, emitter) := (emitterFor program config path).emit
  logEvents emitter.events
  match result with
  | .error (.refused reason) => attempt (.error (.refused reason))
  | .error (.fault fault) =>
    requireWritable fault.error.isWritable
    report (fault.problem.diagnostic path.render)
    exit 1
  | .ok text =>
    requireWritable (emitter.module.isWritable && config.targetTriple.isWritable)
    let target := outputPath path output
    let disk ← attempt (Failure.ofDisk ((← Step.get).disk.write target text.toUTF8))
    Step.update fun s => { s with disk := disk }
    log "cli" ("wrote " ++ toString text.length ++ " bytes of IR")
    print ("built " ++ path.render ++ " -> " ++ target.render)

end KestrelCompiler.CommandLine
