import KestrelCompiler.Decimal.Limit
import KestrelCompiler.Grammar
import KestrelCompiler.Ir.Module
import KestrelCompiler.Ir.NameScope
import KestrelCompiler.LoweringError
import KestrelCompiler.Step

/-!
Lowering of types, expressions and statements. A function is built block by block; the block that
is being filled is closed by a return, and statements after that in the same list are skipped, since
its builder does not take anything for a closed block. All integers are signed, save that one bit is
zero or one.
-/

namespace KestrelCompiler

open Ir (Ty Value)

namespace TypeExpr

def isVoid : TypeExpr → Bool
  | named name => name.text = "void"
  | _ => false

/-- A named type that stands for itself, so not as a return type or behind a pointer. -/
def lowerNamed (width : Nat) (name : Token) : Except LoweringStop Ty :=
  if name.text = "int" then .ok (.int width)
  else if name.text = "bool" then .ok .bit
  else if name.text = "char" then .ok .byte
  else if name.text = "void" then .error (.fault ⟨.misplacedVoid, name.span.start⟩)
  else .error (.fault ⟨.unknownType name.text, name.span.start⟩)

mutual

/-- `int` has the width given. A pointer to `void` is one to bytes, and a function type stands for
pointers to such functions. -/
def lower (width : Nat) : TypeExpr → Except LoweringStop Ty
  | named name => lowerNamed width name
  | pointer inner _ =>
    if inner.isVoid then .ok (.pointer .byte) else Ty.pointer <$> inner.lower width
  | function args none _ _ => do
    let args ← lowerAll width args
    .ok (.pointer (.function .void args))
  | function args (some ret) _ _ => do
    let ret ← if ret.isVoid then .ok .void else ret.lower width
    let args ← lowerAll width args
    .ok (.pointer (.function ret args))

def lowerAll (width : Nat) : List TypeExpr → Except LoweringStop (List Ty)
  | [] => .ok []
  | type :: rest => do
    let type ← type.lower width
    let rest ← lowerAll width rest
    .ok (type :: rest)

end

/-- The return type is looked at before the parameters. -/
def lowerReturn (width : Nat) : Option TypeExpr → Except LoweringStop Ty
  | none => .ok .void
  | some type => if type.isVoid then .ok .void else type.lower width

end TypeExpr

def Signature.lower (width : Nat) (s : Signature) : Except LoweringStop (Ty × List Ty) := do
  let ret ← TypeExpr.lowerReturn width s.ret
  let args ← TypeExpr.lowerAll width s.args
  .ok (ret, args)

/-- A function under construction. `bindings` holds the parameters that have been named. -/
structure Draft where
  ret : Ty
  parameters : List Ir.Parameter
  blocks : List Ir.Block
  current : Nat
  /-- How many numbers were given out; every instruction and every exit uses one. -/
  count : Nat
  scope : Ir.NameScope
  bindings : List (String × Value) := []

namespace Draft

def currentBlock? (d : Draft) : Option Ir.Block :=
  d.blocks[d.current]?

def isClosed (d : Draft) : Bool :=
  d.currentBlock?.any (·.exit.isSome)

/-- Adds an instruction at the end of the current block, which is open. -/
def push (d : Draft) (operation : Ir.Operation) : Value × Draft :=
  let number := d.count + 1
  (⟨operation.type, .result number⟩,
    { d with
      count := number
      blocks := d.blocks.modify d.current fun b =>
        { b with instructions := b.instructions ++ [⟨number, operation⟩] } })

/-- Gives the current block, which is open, its exit. -/
def close (d : Draft) (exit : Ir.Exit) : Draft :=
  { d with
    count := d.count + 1
    blocks := d.blocks.modify d.current fun b => { b with exit := some exit } }

/-- Appends an empty block and tells its position. -/
def addBlock (d : Draft) (label : String) : Nat × Draft :=
  let (label, scope) := d.scope.register label
  (d.blocks.length, { d with scope := scope, blocks := d.blocks ++ [{ label }] })

/-- Names the parameter at a position, in place of its former name. -/
def bind (d : Draft) (name : String) (position : Nat) (type : Ty) : Draft :=
  let (written, scope) := d.scope.register name
  { d with
    scope := scope
    parameters := d.parameters.modify position fun p => { p with name := written }
    bindings := (name, ⟨type, .parameter position⟩) :: d.bindings }

/-- An empty function with its entry block. Each parameter and the result itself use a number. -/
def start (ret : Ty) (parameters : List Ir.Parameter) : Draft where
  ret := ret
  parameters := parameters
  blocks := [{ label := "entry" }]
  current := 0
  count := parameters.length + 1
  scope := ((({} : Ir.NameScope).register "entry")).2

end Draft

/-- What happens while functions are lowered, for those who want to follow it. -/
inductive Event where
  | lowering (function : String)
  | unreachable (block : Location)

structure Build where
  draft : Draft
  strings : List Ir.StringConstant
  events : List Event

/-- A step of lowering, which a fault stops, or a refusal of the builder. -/
abbrev Lower := Step Build LoweringStop

namespace Lower

def fail {α : Type} (e : LoweringError) (l : Location) : Lower α :=
  Step.stop (.fault ⟨e, l⟩)

def refuse {α : Type} (r : Refusal) : Lower α :=
  Step.stop (.refused r)

def draft : Lower Draft := fun b => (.ok b.draft, b)

def update (f : Draft → Draft) : Lower Unit :=
  Step.update fun b => { b with draft := f b.draft }

def note (e : Event) : Lower Unit :=
  Step.update fun b => { b with events := b.events ++ [e] }

/-- Works on the current block, unless it has its exit. The builder asserts this before it adds an
exit; an instruction behind the exit would be no part of the block. -/
def onOpenBlock {α : Type} (x : Lower α) : Lower α := do
  if (← draft).isClosed then refuse .closedBlock else x

def append (operation : Ir.Operation) : Lower Value := fun b =>
  let (value, draft) := b.draft.push operation
  (.ok value, { b with draft := draft })

def push (operation : Ir.Operation) : Lower Value :=
  if operation.isBalanced then onOpenBlock (append operation) else refuse .unequalTypes

def close (exit : Ir.Exit) : Lower Unit :=
  onOpenBlock (update (·.close exit))

def addBlock (label : String) : Lower Nat := fun b =>
  let (position, draft) := b.draft.addBlock label
  (.ok position, { b with draft := draft })

def enter (position : Nat) : Lower Unit :=
  update fun d => { d with current := position }

/-- Adds a string constant and tells its index. -/
def addString (text : String) : Lower Nat := fun b =>
  (.ok b.strings.length, { b with strings := b.strings ++ [⟨text⟩] })

/-- The conversions between integers, which keep the value where the target can hold it, and those
between pointers. Anything else is a fault at `l`. -/
def coerce (v : Value) (target : Ty) (l : Location) : Lower Value :=
  if v.type = target then pure v
  else
    match v.type, target with
    | .int m, .int n =>
      if n < m then push (.truncate v target)
      else if m = 1 then push (.extendZero v target)
      else push (.extendSign v target)
    | .pointer _, .pointer _ => push (.cast v target)
    | type, target => fail (.noConversion type target) l

/-- One bit that tells whether a value counts as true. -/
def truth (v : Value) (l : Location) : Lower Value :=
  match v.type with
  | .int width => if width = 1 then pure v else push (.nonzero v)
  | .pointer _ => push (.nonzero v)
  | _ => fail .conditionNotScalar l

end Lower

/-- The value of a number literal without its underscores: decimal digits of any script. -/
def numberValue? (text : List Char) : Option Nat :=
  let digits := text.filter (· ≠ '_')
  if digits.length ≤ Decimal.maxDigits then
    (digits.mapM Text.digitValue?).map (Text.ofDigits 10)
  else none

namespace Expr

open Lower

/-- The width of an operand, which has to be an integer. -/
def integerWidth (v : Value) (op : Token) (l : Location) : Lower Nat :=
  match v.type with
  | .int width => pure width
  | _ => fail (.operandNotInteger op.text) l

def lower (width : Nat) : Expr → Lower Value
  | number token =>
    match numberValue? token.text.toList with
    | some value => pure ⟨.int width, .number value⟩
    | none => fail (.invalidNumber token.text) token.span.start
  | string token => do
    let index ← addString token.text
    push (.stringAddress index (Ir.StringConstant.size ⟨token.text⟩))
  | name token => do
    match (← draft).bindings.lookup token.text with
    | some value => pure value
    | none => fail (.unknownName token.text) token.span.start
  | binary operation left op right => do
    let l ← left.lower width
    let r ← right.lower width
    let leftWidth ← integerWidth l op left.span.start
    let rightWidth ← integerWidth r op right.span.start
    let common := Ty.int (max leftWidth rightWidth)
    let l ← coerce l common left.span.start
    let r ← coerce r common right.span.start
    match operation with
    | .add => push (.add l r)
    | .sub => push (.sub l r)
    | .less => push (.less l r)

end Expr

/-- The label of a block made at the end of the block `label`; long ones are cut. -/
def labelAfter (label suffix : String) : String :=
  if 50 < label.length then String.ofList (label.toList.take 25) ++ ".." ++ suffix
  else label ++ suffix

namespace Lower

/-- A block named after the current one. -/
def addBlockAfter (suffix : String) : Lower Nat := do
  let label := ((← draft).currentBlock?.map (·.label)).getD ""
  addBlock (labelAfter label suffix)

/-- Fills the block at `position` and goes on at `next`, unless `fill` has closed it. -/
def branch (position next : Nat) (fill : Lower Unit) : Lower Unit := do
  enter position
  fill
  unless (← draft).isClosed do close (.jump next)

end Lower

open Lower

/-- Names the leading parameters, in order. -/
def bindNames : List (Token × Ir.Parameter × Nat) → Lower Unit
  | [] => pure ()
  | (name, parameter, position) :: rest => do
    if ((← draft).bindings.lookup name.text).isSome then
      fail (.duplicateParameter name.text) name.span.start
    update (·.bind name.text position parameter.type)
    bindNames rest

/-- The only directive is `args!`, which names parameters. -/
def lowerDirective (name : Token) (args : List Token) : Lower Unit := do
  if name.text ≠ "args" then fail (.unknownDirective name.text) name.span.start
  let parameters := (← draft).parameters
  match args[parameters.length]? with
  | some extra => fail (.tooManyNames args.length parameters.length) extra.span.start
  | none => bindNames (args.zip parameters.zipIdx)

def lowerReturn (width : Nat) (marker : Token) (value : Expr) : Lower Unit := do
  let ret := (← draft).ret
  if ret = .void then fail .valueWithoutReturnType marker.span.start
  let v ← value.lower width
  let v ← coerce v ret value.span.start
  close (.ret v)

mutual

def Block.lower (width : Nat) : Block → Lower Unit
  | .mk left items _ => lowerItems width left.span.start items

def lowerItems (width : Nat) (block : Location) : List Stmt → Lower Unit
  | [] => pure ()
  | item :: rest => do
    if (← draft).isClosed then note (.unreachable block)
    else
      item.lower width
      lowerItems width block rest

def Stmt.lower (width : Nat) : Stmt → Lower Unit
  | .block body => body.lower width
  | .ifThen _ condition yes => do
    let c ← truth (← condition.lower width) condition.span.start
    let inside ← addBlockAfter ".if"
    let next ← addBlockAfter ".endif"
    close (.branch c inside next)
    branch inside next (yes.lower width)
    enter next
  | .ifElse _ condition yes no => do
    let c ← truth (← condition.lower width) condition.span.start
    let inside ← addBlockAfter ".if"
    let otherwise ← addBlockAfter ".else"
    let next ← addBlockAfter ".endif"
    close (.branch c inside otherwise)
    branch inside next (yes.lower width)
    branch otherwise next (no.lower width)
    enter next
  | .ret marker value => lowerReturn width marker value
  | .directive name _ args => lowerDirective name args

end

/-- The return of a function that ends without one: zero or null. -/
def lowerDefault (ret : Ty) : Lower Unit :=
  match ret with
  | .void => close .retVoid
  | .int _ => close (.ret ⟨ret, .number 0⟩)
  | _ => close (.ret ⟨ret, .null⟩)

def FunctionDecl.lower (width : Nat) (d : FunctionDecl) : Lower Unit := do
  note (.lowering d.name.text)
  d.body.lower width
  unless (← draft).isClosed do lowerDefault (← draft).ret

end KestrelCompiler
