import KestrelCompiler.Lowering
import KestrelCompiler.Proofs.Meaning.Word

/-!
Evaluation of declarations by their trees. What a name stands for, and which address a string
literal has, depends on the text before it and not on what was executed: a directive counts also
inside a branch that is not taken, and all that follows a return in its list of statements is dead.
-/

namespace KestrelCompiler

/-- What the live text before a place has named and written down. -/
structure Scope where
  /-- Names of parameters, with their positions. -/
  names : List (String × Nat) := []
  /-- The string literals of the whole program up to here. -/
  literals : List String := []

namespace Scope

def name (s : Scope) (entry : Token × Nat) : Scope :=
  { s with names := (entry.1.text, entry.2) :: s.names }

/-- The names of a directive stand for the leading parameters, in order. -/
def bind (s : Scope) (args : List Token) : Scope :=
  args.zipIdx.foldl name s

end Scope

/-- The scope behind an expression. -/
def Expr.after (s : Scope) : Expr → Scope
  | number _ | name _ => s
  | string token => { s with literals := s.literals ++ [token.text] }
  | binary _ left _ right => right.after (left.after s)

mutual

/-- Tells whether all that follows in the same list of statements is dead. -/
def Block.closes : Block → Bool
  | .mk _ items _ => itemsClose items

def itemsClose : List Stmt → Bool
  | [] => false
  | item :: rest => item.closes || itemsClose rest

def Stmt.closes : Stmt → Bool
  | .block body => body.closes
  | .ret _ _ => true
  | .ifThen _ _ _ | .ifElse _ _ _ _ | .directive _ _ _ => false

end

mutual

/-- The scope behind a block. Dead statements add nothing. -/
def Block.after (s : Scope) : Block → Scope
  | .mk _ items _ => itemsAfter s items

def itemsAfter (s : Scope) : List Stmt → Scope
  | [] => s
  | item :: rest => if item.closes then item.after s else itemsAfter (item.after s) rest

def Stmt.after (s : Scope) : Stmt → Scope
  | .block body => body.after s
  | .ifThen _ condition yes => yes.after (condition.after s)
  | .ifElse _ condition yes no => no.after (yes.after (condition.after s))
  | .ret _ value => value.after s
  | .directive _ _ args => s.bind args

end

/-- The literals of a program up to the end of a function, of which those before it are given. -/
def FunctionDecl.literalsAfter (literals : List String) (d : FunctionDecl) : List String :=
  (d.body.after { literals }).literals

/-- The live string literals of declarations, in order. -/
def literalsOf (declarations : List FunctionDecl) : List String :=
  declarations.foldl FunctionDecl.literalsAfter []

def TypeExpr.kind? (width : Nat) : TypeExpr → Option Kind
  | named name =>
    if name.text = "int" then some (.int width)
    else if name.text = "bool" then some (.int 1)
    else if name.text = "char" then some (.int 8)
    else none
  | pointer _ _ | function _ _ _ _ => some .address

/-- The kind of what a function gives back, if it gives back anything. -/
def Signature.result? (width : Nat) (s : Signature) : Option Kind :=
  s.ret.bind (·.kind? width)

/-- There is one word for each parameter, of its kind. -/
def Signature.Takes (width : Nat) (s : Signature) (args : List Word) : Prop :=
  s.args.map (·.kind? width) = args.map fun w => some w.kind

/-- How the execution of a statement ends. -/
inductive Ending where
  | next
  | returned (w : Word)

section Evaluation

variable (width : Nat) (args : List Word)

/-- Evaluates an expression with the scope before it. -/
def Expr.eval (s : Scope) : Expr → Option Word
  | number token =>
    (numberValue? token.text.toList).map fun value => .int (BitVec.ofNat width value)
  | string _ => some (.address (.string s.literals.length))
  | name token => (s.names.lookup token.text).bind (args[·]?)
  | binary operation left _ right => do
    operation.apply (← left.eval s) (← right.eval (left.after s))

variable (result : Option Kind)

mutual

def Block.run (s : Scope) : Block → Option Ending
  | .mk _ items _ => runItems s items

def runItems (s : Scope) : List Stmt → Option Ending
  | [] => some .next
  | item :: rest => do
    match ← item.run s with
    | .returned w => some (.returned w)
    | .next => runItems (item.after s) rest

/-- Executes a statement with the scope before it. -/
def Stmt.run (s : Scope) : Stmt → Option Ending
  | .block body => body.run s
  | .ifThen _ condition yes => do
    if (← condition.eval width args s).isTrue then yes.run (condition.after s) else some .next
  | .ifElse _ condition yes no => do
    if (← condition.eval width args s).isTrue then yes.run (condition.after s)
    else no.run (yes.after (condition.after s))
  | .ret _ value => do
    let w ← value.eval width args s
    some (.returned (← w.convert (← result)))
  | .directive _ _ _ => some .next

end

end Evaluation

/-- What a function gives back. Without a return it gives back zero or null, if anything. -/
def FunctionDecl.eval (width : Nat) (literals : List String) (args : List Word)
    (d : FunctionDecl) : Option (Option Word) := do
  match ← d.body.run width args (d.signature.result? width) { literals } with
  | .returned w => some (some w)
  | .next => some ((d.signature.result? width).map Word.zero)

end KestrelCompiler
