import KestrelCompiler.Expectation
import KestrelCompiler.Ir.Ty

/-!
What cannot be expressed in the intermediate language, and what its builder does not take.
-/

namespace KestrelCompiler

inductive LoweringError where
  | misplacedVoid
  | unknownType (name : String)
  | duplicateFunction (name : String)
  | valueWithoutReturnType
  | unknownDirective (name : String)
  | tooManyNames (named taken : Nat)
  | duplicateParameter (name : String)
  | unknownName (name : String)
  | invalidNumber (text : String)
  | operandNotInteger (op : String)
  | conditionNotScalar
  | noConversion (type target : Ir.Ty)

namespace LoweringError

open Expectation (inTicks)

def message : LoweringError → String
  | misplacedVoid => "`void` is only allowed as a return type or behind a pointer"
  | unknownType name => "unknown type " ++ inTicks name
  | duplicateFunction name => "duplicate function " ++ inTicks name
  | valueWithoutReturnType => "cannot return a value from a function without a return type"
  | unknownDirective name => "unknown macro " ++ inTicks (name ++ "!")
  | tooManyNames named taken =>
    "`args!` names " ++ toString named ++ " parameter(s) but the function takes " ++ toString taken
  | duplicateParameter name => "duplicate parameter name " ++ inTicks name
  | unknownName name => "unknown name " ++ inTicks name
  | invalidNumber text => "invalid number literal " ++ inTicks text
  | operandNotInteger op => "operands of " ++ inTicks op ++ " must be integers"
  | conditionNotScalar => "condition must be an integer or pointer"
  | noConversion type target => "cannot convert " ++ type.render ++ " to " ++ target.render

def hint : LoweringError → String
  | unknownName _ => "parameters are named with `args!`"
  | _ => ""

def notes : LoweringError → List String
  | unknownType _ => ["known types are int, bool, char and void"]
  | _ => []

/-- Tells whether the numbers in the message are short enough to be written. -/
def isWritable : LoweringError → Bool
  | noConversion type target => type.isWritable && target.isWritable
  | _ => true

end LoweringError

/-- An error at the point of the program where it arises. -/
structure LoweringFault where
  error : LoweringError
  location : Location

def LoweringFault.problem (f : LoweringFault) : Problem where
  location := f.location
  message := f.error.message
  code := "E300"
  hint := f.error.hint
  notes := f.error.notes

/-- What the builder of functions does not take. No program is to blame for that. -/
inductive Refusal where
  /-- A block that has its exit takes neither instructions nor another exit. -/
  | closedBlock
  /-- Only operands of one type are added or subtracted. -/
  | unequalTypes
  /-- A function is declared before it is filled. -/
  | undeclared

def Refusal.message : Refusal → String
  | closedBlock => "the block has an exit already"
  | unequalTypes => "operands must be of the same type"
  | undeclared => "the function is not declared"

/-- Why lowering stops. -/
inductive LoweringStop where
  | fault (f : LoweringFault)
  | refused (r : Refusal)

instance : Coe LoweringFault LoweringStop := ⟨.fault⟩

end KestrelCompiler
