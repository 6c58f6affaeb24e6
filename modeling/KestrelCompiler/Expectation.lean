import KestrelCompiler.Problem

/-!
What the grammar expects at a place where it finds something else.
-/

namespace KestrelCompiler

inductive Expectation where
  | literal (text : String)
  | declaration
  | functionTypeAfter (name : String)
  | functionType
  | functionBody
  | type
  | statement
  | condition
  | block
  | returnValue
  | nameAfter (name : String)
  | operandAfter (operators : List String)
  /-- An expectation in a caller's own words. -/
  | described (message : String)

namespace Expectation

def inTicks (text : String) : String :=
  "`" ++ text ++ "`"

def message : Expectation → String
  | literal text => "expected " ++ inTicks text
  | declaration => "expected declaration"
  | functionTypeAfter name => "expected function type after " ++ inTicks name
  | functionType => "expected function type"
  | functionBody => "expected function body"
  | type => "expected type"
  | statement => "expected statement in block"
  | condition => "expected condition"
  | block => "expected block"
  | returnValue => "expected return value"
  | nameAfter name => "expected name after " ++ inTicks (name ++ "!")
  | operandAfter operators =>
    "expected operand after " ++ " or ".intercalate (operators.map inTicks)
  | described text => text

def problem (e : Expectation) (l : Location) : Problem where
  location := l
  message := e.message

end Expectation

end KestrelCompiler
