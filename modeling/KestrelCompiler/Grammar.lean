import KestrelCompiler.Program
import KestrelCompiler.StringLiteral
import KestrelCompiler.Text.Letter
import KestrelCompiler.Text.Numeral

/-!
The grammar. Blanks may stand between any two lexemes; only the `!` of a directive has to touch its
name. The words `if` and `else` count as keywords where a blank or the end of the source follows.

    program     ::= declaration*
    declaration ::= name signature block
    signature   ::= `(` [type {`,` type} [`,`]] `)` [type]
    type        ::= signature | name `*`*
    block       ::= `{` statement* `}`
    statement   ::= block | `if` expression block [`else` block] | `:` expression
                  | name`!` name {`,` name}
    expression  ::= sum {`<` sum}
    sum         ::= primary {(`+` | `-`) primary}
    primary     ::= number | string | name
-/

namespace KestrelCompiler

def isIdentChar (c : Char) : Bool :=
  Text.isLetter c || Text.isNumeric c || c = '_'

def isNumberChar (c : Char) : Bool :=
  Text.isNumeric c || c = '_'

namespace Lexeme

def identifier : Lexeme :=
  run isIdentChar

/-- A run of number characters that begins with a numeric one, so not with `_`. -/
def numeral : Lexeme := fun c =>
  if c.peek?.any Text.isNumeric then run isNumberChar c else none

/-- An identifier that a `!` touches. -/
def directiveName : Lexeme := fun c =>
  (identifier c).filter fun span => c.charAt? span.stop = some '!'

end Lexeme

namespace Rule

/-- Reads a fixed text. -/
def token (text : String) : Rule Token :=
  lexeme (.literal text)

/-- Tells whether a list goes on, that is, neither the source nor the list ends here. -/
def continues (closing : String) : Rule Bool := do
  let more ← hasMore
  let closed ← sees (.literal closing)
  pure (more && !closed)

def starsStep (again : TypeExpr → Rule TypeExpr) (inner : TypeExpr) : Rule TypeExpr := do
  match ← optional (token "*") with
  | some star => again (.pointer inner star)
  | none => pure inner

/-- The stars after a type. -/
def stars : TypeExpr → Rule TypeExpr :=
  fix starsStep

def typesStep (type : Rule TypeExpr) (again : List TypeExpr → Rule (List TypeExpr))
    (types : List TypeExpr) : Rule (List TypeExpr) := do
  if ← continues ")" then
    let next ← required type .type
    match ← optional (token ",") with
    | some _ => again (types ++ [next])
    | none => pure (types ++ [next])
  else pure types

/-- Types up to a closing parenthesis, each but the last with a comma after it. -/
def typesOf (type : Rule TypeExpr) : List TypeExpr → Rule (List TypeExpr) :=
  fix (typesStep type)

def signatureOf (type : Rule TypeExpr) : Rule Signature := do
  let left ← token "("
  let args ← typesOf type []
  let right ← expect ")"
  let ret ← optional type
  pure ⟨args, ret, left, right⟩

def namedType : Rule TypeExpr := do
  let name ← lexeme .identifier
  stars (.named name)

def typeOf (type : Rule TypeExpr) : Rule TypeExpr :=
  (Signature.toType <$> signatureOf type) <|> namedType

def typeStep (type : Unit → Rule TypeExpr) (_ : Unit) : Rule TypeExpr :=
  typeOf (type ())

def type : Rule TypeExpr :=
  fix typeStep ()

def signature : Rule Signature :=
  signatureOf type

def primary : Rule Expr :=
  (Expr.number <$> lexeme .numeral) <|> (Expr.string <$> stringLiteral) <|>
    (Expr.name <$> lexeme .identifier)

end Rule

/-- Operators that bind equally strongly, in the order in which they are tried, each with the kind
of node that it makes. -/
structure PrecedenceLevel (κ : Type) where
  operators : List (String × κ)

namespace PrecedenceLevel

/-- A later entry for an operator replaces the earlier one in its place. -/
def ofList {κ : Type} (entries : List (String × κ)) : PrecedenceLevel κ where
  operators := entries.foldl (fun table entry =>
    if table.any (·.1 = entry.1) then
      table.map fun old => if old.1 = entry.1 then entry else old
    else table ++ [entry]) []

def comparison : PrecedenceLevel Operation := ⟨[("<", .less)]⟩
def additive : PrecedenceLevel Operation := ⟨[("+", .add), ("-", .sub)]⟩

/-- The levels of expressions, loosest first. -/
def all : List (PrecedenceLevel Operation) := [comparison, additive]

end PrecedenceLevel

namespace Rule

variable {α κ : Type}

def operator : List (String × κ) → Rule (Token × κ)
  | [] => never
  | (text, kind) :: rest => ((·, kind) <$> token text) <|> operator rest

def operandsStep (build : κ → α → Token → α → α) (operand : Rule α) (level : PrecedenceLevel κ)
    (again : α → Rule α) (left : α) : Rule α := do
  match ← optional (operator level.operators) with
  | some (op, kind) =>
    let right ← required operand (.operandAfter (level.operators.map (·.1)))
    again (build kind left op right)
  | none => pure left

/-- What one level adds to its first operand. -/
def operandsOf (build : κ → α → Token → α → α) (operand : Rule α) (level : PrecedenceLevel κ) :
    α → Rule α :=
  fix (operandsStep build operand level)

/-- Operands joined by the operators of some levels, loosest first. Operators of one level group to
the left; the operands of a level are read at the next tighter one. -/
def climb (build : κ → α → Token → α → α) (operand : Rule α) :
    List (PrecedenceLevel κ) → Rule α
  | [] => operand
  | level :: tighter => do
    let first ← climb build operand tighter
    operandsOf build (climb build operand tighter) level first

def expression : Rule Expr :=
  climb .binary primary PrecedenceLevel.all

def namesStep (name : String) (again : List Token → Rule (List Token)) (names : List Token) :
    Rule (List Token) := do
  let next ← required (lexeme .identifier) (.nameAfter name)
  match ← optional (token ",") with
  | some _ => again (names ++ [next])
  | none => pure (names ++ [next])

/-- Names with commas between them; at least one. -/
def namesAfter (name : String) : List Token → Rule (List Token) :=
  fix (namesStep name)

def directive : Rule Stmt := do
  let name ← lexeme .directiveName
  let bang ← token "!"
  let args ← namesAfter name.text []
  pure (.directive name bang args)

def returned : Rule Stmt := do
  let marker ← token ":"
  let value ← required expression .returnValue
  pure (.ret marker value)

/-- What may follow the first branch of a conditional. -/
def alternativeOf (block : Rule Block) (keyword : Token) (condition : Expr) (yes : Block) :
    Rule Stmt := do
  match ← optional (lexeme (.keyword "else")) with
  | some _ =>
    let no ← required block .block
    pure (.ifElse keyword condition yes no)
  | none => pure (.ifThen keyword condition yes)

def conditionalOf (block : Rule Block) : Rule Stmt := do
  let keyword ← lexeme (.keyword "if")
  let condition ← required expression .condition
  let yes ← required block .block
  alternativeOf block keyword condition yes

def statementOf (block : Rule Block) : Rule Stmt :=
  (Stmt.block <$> block) <|> conditionalOf block <|> returned <|> directive

def statementsStep (statement : Rule Stmt) (again : List Stmt → Rule (List Stmt))
    (items : List Stmt) : Rule (List Stmt) := do
  if ← continues "\x7d" then
    let next ← required statement .statement
    again (items ++ [next])
  else pure items

/-- Statements up to a closing brace. -/
def statementsOf (statement : Rule Stmt) : List Stmt → Rule (List Stmt) :=
  fix (statementsStep statement)

def blockOf (block : Rule Block) : Rule Block := do
  let left ← token "\x7b"
  let items ← statementsOf (statementOf block) []
  let right ← expect "\x7d"
  pure (.mk left items right)

def blockStep (block : Unit → Rule Block) (_ : Unit) : Rule Block :=
  blockOf (block ())

def block : Rule Block :=
  fix blockStep ()

def conditional : Rule Stmt :=
  conditionalOf block

def statement : Rule Stmt :=
  statementOf block

/-- A declaration after its name. -/
def definitionOf (name : Token) : Rule FunctionDecl := do
  let signature ← required signature .functionType
  let body ← required block .functionBody
  pure ⟨name, signature, body⟩

def declaration : Rule FunctionDecl := do
  let name ← lexeme .identifier
  if ← sees (.literal "(") then definitionOf name
  else fail (.functionTypeAfter name.text)

def declarationsStep (again : List FunctionDecl → Rule (List FunctionDecl))
    (decls : List FunctionDecl) : Rule (List FunctionDecl) := do
  if ← hasMore then
    let next ← required declaration .declaration
    again (decls ++ [next])
  else pure decls

def declarations : List FunctionDecl → Rule (List FunctionDecl) :=
  fix declarationsStep

def program : Rule Program :=
  Program.mk <$> declarations []

end Rule

/-- Reads a whole source, up to its first fault. -/
def Program.parse (source : String) : Except Problem Program :=
  match Rule.program (.ofString source) with
  | (.matched program, _) => .ok program
  | (.failed problem, _) => .error problem
  | (.noMatch, c) => .error (Expectation.declaration.problem c.location)

end KestrelCompiler
