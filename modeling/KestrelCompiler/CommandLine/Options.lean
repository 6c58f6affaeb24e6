import KestrelCompiler.Text.Quoted
import KestrelCompiler.Text.Similarity

/-!
Options on a command line. A long option is a word after two hyphens, a short one a letter after one
hyphen; short options without values may share a hyphen. A value follows its option directly or
as the next argument, and `--` ends the options.
-/

namespace KestrelCompiler.CommandLine

inductive OptionName where
  | version
  | verbose
  | noColor
  | help
  | output
  deriving DecidableEq

structure OptionForm where
  name : OptionName
  long : String
  short : Option Char := none
  takesValue : Bool := false

inductive OptionError where
  /-- `close` holds the options that may have been meant. -/
  | unknown (option : String) (close : List String)
  | needsValue (option : String)
  | takesNoValue (option : String)

/-- An option as it was given, with its value. -/
structure Given where
  option : OptionName
  value : Option String := none

/-- Options read from one argument, and one that still needs a value. -/
structure OptionGroup where
  given : List Given
  pending : Option (OptionName × String) := none

/-- Reads the letters after a single hyphen. What follows an option with a value is that value. -/
def readLetters (forms : List OptionForm) : List Char → Except OptionError OptionGroup
  | [] => .ok { given := [] }
  | c :: rest =>
    let written := String.ofList ['-', c]
    match forms.find? (·.short = some c) with
    | none => .error (.unknown written [])
    | some form =>
      if form.takesValue then
        if rest.isEmpty then .ok { given := [], pending := some (form.name, written) }
        else .ok { given := [⟨form.name, some (String.ofList rest)⟩] }
      else do
        let group ← readLetters forms rest
        .ok { group with given := ⟨form.name, none⟩ :: group.given }

/-- Reads an option of two hyphens, with its value if a `=` follows. -/
def readWord (forms : List OptionForm) (arg : List Char) : Except OptionError OptionGroup :=
  let written := String.ofList (arg.takeWhile (· ≠ '='))
  match forms.find? (·.long = written), arg.dropWhile (· ≠ '=') with
  | none, _ => .error (.unknown written (Text.closeWords (forms.map (·.long)) written))
  | some form, [] =>
    if form.takesValue then .ok { given := [], pending := some (form.name, written) }
    else .ok { given := [⟨form.name, none⟩] }
  | some form, _ :: value =>
    if form.takesValue then .ok { given := [⟨form.name, some (String.ofList value)⟩] }
    else .error (.takesNoValue written)

def readOption (forms : List OptionForm) (arg : String) : Except OptionError OptionGroup :=
  match arg.toList with
  | '-' :: '-' :: _ => readWord forms arg.toList
  | _ => readLetters forms (arg.toList.drop 1)

/-- A single hyphen is no option. -/
def isOption (arg : String) : Bool :=
  arg.toList.head? = some '-' && arg ≠ "-"

/-- Separates options from other arguments. Unless `mixed`, the first other argument ends the
options. -/
def readOptions (forms : List OptionForm) (mixed : Bool) :
    List String → Except OptionError (List Given × List String)
  | [] => .ok ([], [])
  | arg :: rest =>
    if arg = "--" then .ok ([], rest)
    else if isOption arg then do
      let group ← readOption forms arg
      match group.pending with
      | none =>
        let (given, others) ← readOptions forms mixed rest
        .ok (group.given ++ given, others)
      | some (option, written) =>
        match rest with
        | [] => .error (.needsValue written)
        | value :: rest =>
          let (given, others) ← readOptions forms mixed rest
          .ok (group.given ++ ⟨option, some value⟩ :: given, others)
    else if mixed then do
      let (given, others) ← readOptions forms mixed rest
      .ok (given, arg :: others)
    else .ok ([], arg :: rest)

end KestrelCompiler.CommandLine
