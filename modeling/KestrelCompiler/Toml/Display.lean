import KestrelCompiler.Text.Quoted
import KestrelCompiler.Toml.Value

/-!
Configured values as text. A value that stands alone is shown plainly; inside an array or a table,
texts are quoted and dates are written out by their parts.
-/

namespace KestrelCompiler.Toml

def padded (width n : Nat) : String :=
  let digits := Nat.toDigits 10 n
  String.ofList (List.replicate (width - digits.length) '0' ++ digits)

def commaList (items : List String) : String :=
  ", ".intercalate items

def Date.plain (d : Date) : String :=
  "-".intercalate [padded 4 d.year, padded 2 d.month, padded 2 d.day]

def Time.plain (t : Time) : String :=
  ":".intercalate [padded 2 t.hour, padded 2 t.minute, padded 2 t.second] ++
    if t.microsecond = 0 then "" else "." ++ padded 6 t.microsecond

def plainOffset (minutes : Int) : String :=
  (if minutes < 0 then "-" else "+") ++ padded 2 (minutes.natAbs / 60) ++ ":" ++
    padded 2 (minutes.natAbs % 60)

def Date.parts (d : Date) : List String :=
  [d.year, d.month, d.day].map toString

/-- Seconds and microseconds are left out when they and what follows are zero. -/
def Time.parts (t : Time) : List String :=
  let finer := if t.microsecond ≠ 0 then [t.second, t.microsecond]
    else if t.second ≠ 0 then [t.second] else []
  ([t.hour, t.minute] ++ finer).map toString

/-- A zone west of Greenwich is a day back and some seconds forward. -/
def zoneParts (minutes : Int) : String :=
  if minutes = 0 then "datetime.timezone.utc"
  else
    let seconds := (minutes * 60) % 86400
    let delta := if minutes < 0 then "days=-1, seconds=" else "seconds="
    "datetime.timezone(datetime.timedelta(" ++ delta ++ toString seconds ++ "))"

namespace Value

mutual

/-- The form inside an array or a table. -/
def nested : Value → String
  | string text => Text.quote text
  | integer value => toString value
  | float value => value.render
  | boolean value => if value then "True" else "False"
  | date d => "datetime.date(" ++ commaList d.parts ++ ")"
  | time t => "datetime.time(" ++ commaList t.parts ++ ")"
  | dateTime d t offset =>
    let zone := (offset.map fun minutes => "tzinfo=" ++ zoneParts minutes).toList
    "datetime.datetime(" ++ commaList (d.parts ++ t.parts ++ zone) ++ ")"
  | array items => "[" ++ commaList (nestedItems items) ++ "]"
  | table entries => "\x7b" ++ commaList (nestedEntries entries) ++ "\x7d"

def nestedItems : List Value → List String
  | [] => []
  | item :: rest => item.nested :: nestedItems rest

def nestedEntries : List (String × Value) → List String
  | [] => []
  | (key, value) :: rest => (Text.quote key ++ ": " ++ value.nested) :: nestedEntries rest

end

def plain : Value → String
  | string text => text
  | date d => d.plain
  | time t => t.plain
  | dateTime d t offset => d.plain ++ " " ++ t.plain ++ (offset.map plainOffset).getD ""
  | value => value.nested

end Value

end KestrelCompiler.Toml
