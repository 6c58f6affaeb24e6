import KestrelCompiler.CommandLine.Options

/-!
Commands with their options and arguments, their help texts, and what is said when they are used
wrongly.
-/

namespace KestrelCompiler.CommandLine

inductive Command where
  | check
  | view
  | build
  deriving DecidableEq

/-- The whole program or one of its commands. -/
inductive Level where
  | program
  | command (c : Command)

def version : String := "0.1.0"

namespace Command

def all : List Command := [build, check, view]

def name : Command → String
  | check => "check"
  | view => "view"
  | build => "build"

def summary : Command → String
  | check => "Parse Kestrel source files and report syntax errors."
  | view => "View the AST of a Kestrel source file."
  | build => "Compile a Kestrel source file to LLVM IR."

/-- What the file arguments are called. -/
def files : Command → String
  | check => "FILES..."
  | view | build => "FILE"

end Command

def helpForm : OptionForm := { name := .help, long := "--help" }

def outputForm : OptionForm :=
  { name := .output, long := "--output", short := some 'o', takesValue := true }

namespace Level

def forms : Level → List OptionForm
  | program =>
    [{ name := .version, long := "--version" },
      { name := .verbose, long := "--verbose", short := some 'v' },
      { name := .noColor, long := "--no-color" }, helpForm]
  | command .build => [outputForm, helpForm]
  | command _ => [helpForm]

/-- The words that run it. -/
def title : Level → String
  | program => "kestrel"
  | command c => "kestrel " ++ c.name

def usageLine : Level → String
  | program => "Usage: kestrel [OPTIONS] COMMAND [ARGS]..."
  | command c => "Usage: " ++ (command c).title ++ " [OPTIONS] " ++ c.files

/-- Options or commands, each with its description. -/
def table (heading : String) (rows : List (String × String)) : List String :=
  let width := (rows.map (·.1.length)).foldl max 0 + 2
  heading :: rows.map fun (name, description) =>
    "  " ++ name ++ String.ofList (List.replicate (width - name.length) ' ') ++ description

def helpRow : String × String := ("--help", "Show this message and exit.")

def optionRows : Level → List (String × String)
  | program =>
    [("--version", "Show the version and exit."), ("-v, --verbose", "Enable debug logging."),
      ("--no-color", "Disable colored diagnostics."), helpRow]
  | command .build =>
    [("-o, --output FILE", "Where to write the LLVM IR (default: FILE with .ll suffix)."), helpRow]
  | command _ => [helpRow]

def summary : Level → String
  | program => "The Kestrel language compiler."
  | command c => c.summary

def helpLines (l : Level) : List String :=
  let commands := match l with
    | program => "" :: table "Commands:" (Command.all.map fun c => (c.name, c.summary))
    | command _ => []
  [l.usageLine, "", "  " ++ l.summary, ""] ++ table "Options:" l.optionRows ++ commands

def help (l : Level) : String :=
  "\n".intercalate l.helpLines

end Level

inductive UsageError where
  | option (error : OptionError)
  | missingCommand
  | unknownCommand (name : String)
  | missingArgument (argument : String)
  | noSuchFile (argument file : String)
  | isDirectory (argument file : String)
  | extraArguments (arguments : List String)

namespace UsageError

/-- A question after a complaint about an unknown word. -/
def suggestion : List String → String
  | [] => ""
  | [word] => " Did you mean " ++ Text.quote word ++ "?"
  | words => " (Did you mean one of: " ++ ", ".intercalate (words.map Text.quote) ++ "?)"

def message : UsageError → String
  | option (.unknown name close) => "No such option " ++ Text.quote name ++ "." ++ suggestion close
  | option (.needsValue name) => "Option " ++ Text.quote name ++ " requires an argument."
  | option (.takesNoValue name) => "Option " ++ Text.quote name ++ " does not take a value."
  | missingCommand => "Missing command."
  | unknownCommand name =>
    "No such command " ++ Text.quote name ++ "." ++
      suggestion (Text.closeWords (Command.all.map Command.name) name)
  | missingArgument argument => "Missing argument '" ++ argument ++ "'."
  | noSuchFile argument file =>
    "Invalid value for " ++ argument ++ ": File " ++ Text.quote file ++ " does not exist."
  | isDirectory argument file =>
    "Invalid value for " ++ argument ++ ": File " ++ Text.quote file ++ " is a directory."
  | extraArguments [argument] => "Got unexpected extra argument (" ++ argument ++ ")"
  | extraArguments arguments =>
    "Got unexpected extra arguments (" ++ " ".intercalate arguments ++ ")"

/-- A wrong use of an option's value is told without a pointer to the help text. -/
def showsUsage : UsageError → Bool
  | option (.needsValue _) | option (.takesNoValue _) => false
  | _ => true

def render (e : UsageError) (l : Level) : String :=
  let pointer := if e.showsUsage then
    [l.usageLine, "Try '" ++ l.title ++ " --help' for help.", ""] else []
  "\n".intercalate (pointer ++ ["Error: " ++ e.message])

end UsageError

end KestrelCompiler.CommandLine
