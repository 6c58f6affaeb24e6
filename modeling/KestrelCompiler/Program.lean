import KestrelCompiler.Token

/-!
Syntax trees. A tree keeps the tokens it was read from, delimiters included, and its span follows
from them.
-/

namespace KestrelCompiler

/-- A type. A function type `(args...) ret` keeps its parentheses; without `ret` it gives back
nothing. -/
inductive TypeExpr where
  | named (name : Token)
  | pointer (inner : TypeExpr) (star : Token)
  | function (args : List TypeExpr) (ret : Option TypeExpr) (left right : Token)

/-- The type of a function as a declaration writes it. -/
structure Signature where
  args : List TypeExpr
  ret : Option TypeExpr
  left : Token
  right : Token

def Signature.toType (s : Signature) : TypeExpr :=
  .function s.args s.ret s.left s.right

inductive Operation where
  | add
  | sub
  | less
  deriving DecidableEq

inductive Expr where
  | number (token : Token)
  | string (token : Token)
  | name (token : Token)
  | binary (operation : Operation) (left : Expr) (op : Token) (right : Expr)

mutual

/-- Statements in braces. -/
inductive Block where
  | mk (left : Token) (items : List Stmt) (right : Token)

/-- A statement: a block, a conditional with one or two branches, `: value`, or a directive
`name! arg, ...`. -/
inductive Stmt where
  | block (body : Block)
  | ifThen (keyword : Token) (condition : Expr) (yes : Block)
  | ifElse (keyword : Token) (condition : Expr) (yes no : Block)
  | ret (marker : Token) (value : Expr)
  | directive (name bang : Token) (args : List Token)

end

structure FunctionDecl where
  name : Token
  signature : Signature
  body : Block

structure Program where
  declarations : List FunctionDecl

namespace TypeExpr

def span : TypeExpr → Span
  | named name => name.span
  | pointer inner star => inner.span.cover star.span
  | function _ none left right => left.span.cover right.span
  | function _ (some ret) left _ => left.span.cover ret.span

end TypeExpr

def Signature.span (s : Signature) : Span :=
  s.toType.span

namespace Expr

def span : Expr → Span
  | number token | string token | name token => token.span
  | binary _ left _ right => left.span.cover right.span

end Expr

namespace Block

def left : Block → Token
  | mk left _ _ => left

def items : Block → List Stmt
  | mk _ items _ => items

def right : Block → Token
  | mk _ _ right => right

def span (b : Block) : Span :=
  b.left.span.cover b.right.span

end Block

/-- A directive ends with its last argument. -/
def Stmt.directiveSpan (name bang : Token) (args : List Token) : Span :=
  name.span.cover (args.getLastD bang).span

end KestrelCompiler
