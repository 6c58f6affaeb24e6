import KestrelCompiler.Ir.Module
import KestrelCompiler.Text.Quoted

/-!
The written form of modules. Functions come first, in the order in which they were declared, and
then the string constants.
-/

namespace KestrelCompiler.Ir

def inQuotes (name : String) : String :=
  "\"" ++ name ++ "\""

/-- Written names of a function's parameters and blocks. -/
structure Names where
  parameters : List String
  labels : List String

def Function.names (f : Function) : Names where
  parameters := f.parameters.map (·.name)
  labels := f.blocks.map (·.label)

def resultName (number : Nat) : String :=
  "." ++ toString number

def localName (name : String) : String :=
  "%" ++ inQuotes name

def Operand.render (names : Names) : Operand → String
  | number value => toString value
  | null => "null"
  | parameter position => localName (names.parameters.getD position "")
  | result n => localName (resultName n)

def Value.render (names : Names) (v : Value) : String :=
  v.type.render ++ " " ++ v.operand.render names

def labelText (names : Names) (target : Nat) : String :=
  "label " ++ localName (names.labels.getD target "")

def stringName (index : Nat) : String :=
  ".str." ++ toString index

def bytesType (size : Nat) : String :=
  "[" ++ toString size ++ " x i8]"

def Operation.render (names : Names) : Operation → String
  | add left right => "add " ++ left.render names ++ ", " ++ right.operand.render names
  | sub left right => "sub " ++ left.render names ++ ", " ++ right.operand.render names
  | less left right => "icmp slt " ++ left.render names ++ ", " ++ right.operand.render names
  | nonzero value =>
    let zero := match value.type with
      | .int _ => Operand.number 0
      | _ => .null
    "icmp ne " ++ value.render names ++ ", " ++ zero.render names
  | truncate value type => "trunc " ++ value.render names ++ " to " ++ type.render
  | extendSign value type => "sext " ++ value.render names ++ " to " ++ type.render
  | extendZero value type => "zext " ++ value.render names ++ " to " ++ type.render
  | cast value type => "bitcast " ++ value.render names ++ " to " ++ type.render
  | stringAddress index size =>
    "getelementptr inbounds " ++ bytesType size ++ ", " ++ bytesType size ++ "* @" ++
      inQuotes (stringName index) ++ ", i32 0, i32 0"

def Instruction.render (names : Names) (i : Instruction) : String :=
  localName (resultName i.number) ++ " = " ++ i.operation.render names

def Exit.render (names : Names) : Exit → String
  | branch condition yes no =>
    "br " ++ condition.render names ++ ", " ++ labelText names yes ++ ", " ++ labelText names no
  | jump target => "br " ++ labelText names target
  | ret value => "ret " ++ value.render names
  | retVoid => "ret void"

def Block.render (names : Names) (b : Block) : String :=
  let lines := b.instructions.map (·.render names) ++ (b.exit.map (·.render names)).toList
  b.label ++ ":\n" ++ String.join (lines.map fun line => "  " ++ line ++ "\n")

def Parameter.render (p : Parameter) : String :=
  p.type.render ++ " " ++ localName p.name

def Function.render (f : Function) : String :=
  "define " ++ f.ret.render ++ " @" ++ inQuotes f.name ++
    "(" ++ ", ".intercalate (f.parameters.map Parameter.render) ++ ")\n\x7b\n" ++
    String.join (f.blocks.map (·.render f.names)) ++ "\x7d\n"

/-- Printable characters of ASCII stand for themselves, save `"` and the backslash; all other bytes
are written as a backslash and two hexadecimal digits. -/
def renderByte (b : UInt8) : List Char :=
  if 0x20 ≤ b && b < 0x7F && b ≠ 0x22 && b ≠ 0x5C then [Char.ofNat b.toNat]
  else '\\' :: Text.hexadecimal b.toNat 2

def StringConstant.render (index : Nat) (s : StringConstant) : String :=
  "@" ++ inQuotes (stringName index) ++ " = private constant " ++ bytesType s.size ++ " c" ++
    inQuotes (String.ofList (s.bytes.flatMap renderByte))

def Module.render (m : Module) : String :=
  let header := ["; ModuleID = " ++ inQuotes m.name, "target triple = " ++ inQuotes m.triple,
    "target datalayout = " ++ inQuotes "", ""]
  "\n".intercalate
    (header ++ m.functions.map Function.render ++
      m.strings.mapIdx fun index s => s.render index)

end KestrelCompiler.Ir
