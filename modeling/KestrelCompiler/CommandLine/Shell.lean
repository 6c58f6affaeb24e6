import KestrelCompiler.Report
import KestrelCompiler.Step

/-!
What a command works with: the disk, a reporter, and the two streams that it writes to.
-/

namespace KestrelCompiler.CommandLine

structure Shell where
  disk : Disk
  reporter : Reporter
  /-- Whether the streams are shown with styles; if not, style sequences are left out. -/
  styled : Bool
  verbose : Bool
  out : String := ""
  err : String := ""

/-- Why a command ends before its end. -/
inductive Stop where
  | exit (code : Nat)
  | failure (f : Failure)

abbrev Action := Step Shell Stop

namespace Shell

/-- A line as it is shown. -/
def shown (s : Shell) (text : String) : String :=
  (if s.styled then text else Text.stripStyles text) ++ "\n"

def print (text : String) : Action Unit :=
  Step.update fun s => { s with out := s.out ++ s.shown text }

def printError (text : String) : Action Unit :=
  Step.update fun s => { s with err := s.err ++ s.shown text }

/-- Notes for those who want to follow the work. -/
def log (source message : String) : Action Unit :=
  Step.update fun s =>
    if s.verbose then { s with err := s.err ++ "DEBUG kestrel." ++ source ++ ": " ++ message ++ "\n" }
    else s

def exit {α : Type} (code : Nat) : Action α :=
  Step.stop (.exit code)

def attempt {α : Type} : Except Failure α → Action α
  | .ok a => pure a
  | .error f => Step.stop (.failure f)

/-- Reports a diagnostic on the error stream. -/
def report (d : Diagnostic) : Action Unit := do
  let s ← Step.get
  let (text, reporter) := s.reporter.render s.disk d
  Step.update fun s => { s with reporter := reporter }
  printError (← attempt text)

end Shell

end KestrelCompiler.CommandLine
