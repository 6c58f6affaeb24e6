import KestrelCompiler.Ir.Ty

/-!
Modules of the intermediate language. Inside a function, parameters, results and blocks are known by
their positions and numbers; the names that they have in writing stand beside them.
-/

namespace KestrelCompiler.Ir

inductive Operand where
  /-- A constant, written as it is and never brought into the range of its type. -/
  | number (value : Int)
  | null
  | parameter (position : Nat)
  | result (number : Nat)

structure Value where
  type : Ty
  operand : Operand

/-- What an instruction computes. -/
inductive Operation where
  | add (left right : Value)
  | sub (left right : Value)
  /-- Compares two signed numbers. -/
  | less (left right : Value)
  /-- Whether a number is not zero or a pointer not null. -/
  | nonzero (value : Value)
  | truncate (value : Value) (type : Ty)
  | extendSign (value : Value) (type : Ty)
  | extendZero (value : Value) (type : Ty)
  | cast (value : Value) (type : Ty)
  /-- The address of the first of the `size` bytes of a string. -/
  | stringAddress (index size : Nat)

def Operation.type : Operation → Ty
  | add left _ | sub left _ => left.type
  | less _ _ | nonzero _ => .bit
  | truncate _ type | extendSign _ type | extendZero _ type | cast _ type => type
  | stringAddress _ _ => .pointer .byte

/-- Tells whether operands that are added or subtracted have one type. -/
def Operation.isBalanced : Operation → Bool
  | add left right | sub left right => left.type = right.type
  | _ => true

/-- The types that are written with an operation. -/
def Operation.types : Operation → List Ty
  | add left _ | sub left _ | less left _ | nonzero left => [left.type]
  | truncate value type | extendSign value type | extendZero value type | cast value type =>
    [value.type, type]
  | stringAddress _ _ => []

structure Instruction where
  number : Nat
  operation : Operation

/-- How a block ends. Targets are positions in the list of blocks. -/
inductive Exit where
  | branch (condition : Value) (yes no : Nat)
  | jump (target : Nat)
  | ret (value : Value)
  | retVoid

/-- The types that are written with an exit. -/
def Exit.types : Exit → List Ty
  | branch condition _ _ => [condition.type]
  | ret value => [value.type]
  | jump _ | retVoid => []

structure Block where
  label : String
  instructions : List Instruction := []
  exit : Option Exit := none

def Block.types (b : Block) : List Ty :=
  b.instructions.flatMap (·.operation.types) ++ (b.exit.map Exit.types).getD []

structure Parameter where
  type : Ty
  name : String

structure Function where
  name : String
  ret : Ty
  parameters : List Parameter
  blocks : List Block := []

def Function.types (f : Function) : List Ty :=
  f.ret :: f.parameters.map (·.type) ++ f.blocks.flatMap Block.types

/-- A string constant holds the UTF-8 bytes of its text and a zero after them. -/
structure StringConstant where
  text : String

namespace StringConstant

def bytes (s : StringConstant) : List UInt8 :=
  s.text.toUTF8.toList ++ [0]

def size (s : StringConstant) : Nat :=
  s.text.utf8ByteSize + 1

end StringConstant

structure Module where
  name : String
  triple : String
  functions : List Function := []
  strings : List StringConstant := []

/-- Tells whether all types of a module are short enough to be written. -/
def Module.isWritable (m : Module) : Bool :=
  (m.functions.flatMap Function.types).all Ty.isWritable

end KestrelCompiler.Ir
