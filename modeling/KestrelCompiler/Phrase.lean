import KestrelCompiler.Outline

/-!
Phrases: whatever a grammar rule may read, under one type, and the rules by name.
-/

namespace KestrelCompiler

inductive Phrase where
  | token (t : Token)
  | type (t : TypeExpr)
  | signature (s : Signature)
  | expression (e : Expr)
  /-- Two phrases joined by an operator, which need not stand for an operation. -/
  | binary (operation : Option Operation) (left : Phrase) (op : Token) (right : Phrase)
  | block (b : Block)
  | statement (s : Stmt)
  | declaration (d : FunctionDecl)
  | program (p : Program)

namespace Phrase

/-- The span of a phrase. Conditionals, returns, declarations and programs have none of their
own. -/
def span? : Phrase → Option Span
  | token t => some t.span
  | type t => some t.span
  | signature s => some s.span
  | expression e => some e.span
  | binary _ left _ right => do some ((← left.span?).cover (← right.span?))
  | block b => some b.span
  | statement (.block b) => some b.span
  | statement (.directive name bang args) => some (Stmt.directiveSpan name bang args)
  | statement _ | declaration _ | program _ => none

def outline : Phrase → Outline
  | token t => .leaf ("Token: " ++ t.describe)
  | type t => t.outline
  | signature s => s.outline
  | expression e => e.outline
  | binary operation left op right =>
    Outline.binary ((operation.map Operation.label).getD "BinaryExpr") left.outline op right.outline
  | block b => b.outline
  | statement s => s.outline
  | declaration d => d.outline
  | program p => p.outline

end Phrase

/-- The outline of an outcome; a token is not shown as the value of a match. -/
def Outcome.outline : Outcome Phrase → Outline
  | .matched (.token _) => .leaf "Matched"
  | .matched phrase => .entry "Matched" [.part "value" phrase.outline]
  | .noMatch => .leaf "_NoMatch: NO_MATCH"
  | .failed problem => .entry "Failed" [.part "error" problem.outline]

/-- The rules that can be asked for by name. -/
inductive RuleName where
  | program
  | declaration
  | type
  | signature
  | statement
  | conditional
  | returned
  | directive
  | block
  | expression
  | primary
  | stringLiteral

namespace RuleName

def rule : RuleName → Rule Phrase
  | program => Phrase.program <$> Rule.program
  | declaration => Phrase.declaration <$> Rule.declaration
  | type => Phrase.type <$> Rule.type
  | signature => Phrase.signature <$> Rule.signature
  | statement => Phrase.statement <$> Rule.statement
  | conditional => Phrase.statement <$> Rule.conditional
  | returned => Phrase.statement <$> Rule.returned
  | directive => Phrase.statement <$> Rule.directive
  | block => Phrase.block <$> Rule.block
  | expression => Phrase.expression <$> Rule.expression
  | primary => Phrase.expression <$> Rule.primary
  | stringLiteral => Phrase.token <$> Rule.stringLiteral

end RuleName

end KestrelCompiler
