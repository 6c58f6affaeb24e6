import KestrelCompiler.CommandLine.Reach

/-!
The program. It reads what a run may look at, runs, and puts down what the run wrote.
-/

open KestrelCompiler

/-- Adds what stands at a place of the real file tree; what cannot be read is left out. -/
def loadPlace (disk : Disk) (place : Place) : IO Disk := do
  let path := (← IO.currentDir) / place.render
  try
    if ← path.isDir then return disk.ensureDirectory place
    if ← path.pathExists then return disk.put place (.file (← IO.FS.readBinFile path))
    return disk
  catch _ => return disk

def main (args : List String) : IO UInt32 := do
  let working := (Path.ofString (← IO.currentDir).toString).parts
  let empty : Disk := { working }
  let disk ← (CommandLine.reach empty args).foldlM loadPlace empty
  let out ← IO.getStdout
  let err ← IO.getStderr
  let run := CommandLine.run disk (← out.isTty) args
  for (place, bytes) in run.shell.disk.changesFrom disk do
    IO.FS.writeBinFile place.render bytes
  out.putStr run.shell.out
  err.putStr run.shell.err
  match run.failure with
  | some failure => err.putStrLn ("Error: " ++ failure.message)
  | none => pure ()
  return run.exitCode.toUInt32
