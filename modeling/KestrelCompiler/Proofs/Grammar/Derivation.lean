import KestrelCompiler.Grammar
import KestrelCompiler.Proofs.StringLiteral.Piece

/-!
The grammar as derivations over the source text. A derivation leads from one place of the source to
another; it has a tree, and it lists the spans of all its lexemes, those that the tree does not keep
included. Nothing here chooses: an optional part, a further item of a list or another operator may
be taken or left wherever the text allows it.
-/

namespace KestrelCompiler

/-- A point of a source with the text after it. -/
structure Position where
  location : Location
  rest : List Char

namespace Position

def start (source : String) : Position where
  location := .start
  rest := source.toList

/-- The text `word` stands at `p` after blanks. It covers `s`, and `q` is the place after it. -/
def Stands (p : Position) (word : List Char) (s : Span) (q : Position) : Prop :=
  ∃ blanks, (∀ c ∈ blanks, Text.isBlank c = true) ∧ p.rest = blanks ++ (word ++ q.rest) ∧
    s.start = p.location.walk blanks ∧ s.stop = s.start.walk word ∧ q.location = s.stop

end Position

/-- Which texts count as a lexeme, before which rest of the source. -/
abbrev Shape := List Char → List Char → Prop

namespace Shape

def fixed (text : String) : Shape := fun word _ =>
  word = text.toList

/-- A word with a blank or the end of the source after it. -/
def keyword (text : String) : Shape := fun word after =>
  word = text.toList ∧ ∀ c ∈ after.head?, Text.isBlank c = true

/-- A run of accepted characters that the next character does not prolong. -/
def run (accepts : Char → Bool) : Shape := fun word after =>
  word ≠ [] ∧ (∀ c ∈ word, accepts c = true) ∧ ∀ c ∈ after.head?, accepts c = false

def identifier : Shape :=
  run isIdentChar

/-- A numeric character and then a run of number characters. -/
def number : Shape := fun word after =>
  (∃ first more, word = first :: more ∧ Text.isNumeric first = true ∧
    ∀ c ∈ more, isNumberChar c = true) ∧
  ∀ c ∈ after.head?, isNumberChar c = false

/-- An identifier that is no number. -/
def name : Shape := fun word after =>
  identifier word after ∧ ∀ c ∈ word.head?, Text.isNumeric c = false

/-- An identifier that a `!` touches. -/
def directiveName : Shape := fun word after =>
  identifier word after ∧ after.head? = some '!'

end Shape

namespace Position

/-- The token `t` is a lexeme of some shape at `p`, and `q` is the place after it. -/
def Reads (shape : Shape) (p : Position) (t : Token) (q : Position) : Prop :=
  ∃ word, shape word q.rest ∧ p.Stands word t.span q ∧ t.text = String.ofList word ∧
    t.decoded = false

/-- The token `t` is a string literal at `p`, and `q` is the place after it. -/
def ReadsString (p : Position) (t : Token) (q : Position) : Prop :=
  ∃ pieces, p.Stands (StringLiteral.Piece.literal pieces) t.span q ∧
    t = StringLiteral.Piece.token t.span.start pieces

end Position

namespace Derivation

open Position

inductive Stars : TypeExpr → Position → TypeExpr → List Span → Position → Prop
  | none {inner : TypeExpr} {p : Position} : Stars inner p inner [] p
  | star {inner type : TypeExpr} {p p₁ q : Position} {star : Token} {spans : List Span} :
    Reads (.fixed "*") p star p₁ → Stars (.pointer inner star) p₁ type spans q →
    Stars inner p type (star.span :: spans) q

mutual

inductive TypeAt : Position → TypeExpr → List Span → Position → Prop
  | named {p p₁ q : Position} {name : Token} {type : TypeExpr} {spans : List Span} :
    Reads .identifier p name p₁ → Stars (.named name) p₁ type spans q →
    TypeAt p type (name.span :: spans) q
  | function {p q : Position} {s : Signature} {spans : List Span} :
    SignatureAt p s spans q → TypeAt p (.function s.args s.ret s.left s.right) spans q

inductive SignatureAt : Position → Signature → List Span → Position → Prop
  | mk {p p₁ p₂ p₃ q : Position} {left right : Token} {args : List TypeExpr}
    {ret : Option TypeExpr} {spans spans' : List Span} :
    Reads (.fixed "(") p left p₁ → TypesAt p₁ args spans p₂ → Reads (.fixed ")") p₂ right p₃ →
    ResultAt p₃ ret spans' q →
    SignatureAt p ⟨args, ret, left, right⟩ (left.span :: (spans ++ right.span :: spans')) q

/-- Types with commas between them; after the last one there may be another comma. -/
inductive TypesAt : Position → List TypeExpr → List Span → Position → Prop
  | none {p : Position} : TypesAt p [] [] p
  | last {p q : Position} {type : TypeExpr} {spans : List Span} :
    TypeAt p type spans q → TypesAt p [type] spans q
  | more {p p₁ p₂ q : Position} {type : TypeExpr} {comma : Token} {types : List TypeExpr}
    {spans spans' : List Span} :
    TypeAt p type spans p₁ → Reads (.fixed ",") p₁ comma p₂ → TypesAt p₂ types spans' q →
    TypesAt p (type :: types) (spans ++ comma.span :: spans') q

inductive ResultAt : Position → Option TypeExpr → List Span → Position → Prop
  | none {p : Position} : ResultAt p none [] p
  | some {p q : Position} {type : TypeExpr} {spans : List Span} :
    TypeAt p type spans q → ResultAt p (some type) spans q

end

inductive PrimaryAt : Position → Expr → List Span → Position → Prop
  | number {p q : Position} {t : Token} : Reads .number p t q → PrimaryAt p (.number t) [t.span] q
  | string {p q : Position} {t : Token} : ReadsString p t q → PrimaryAt p (.string t) [t.span] q
  | name {p q : Position} {t : Token} : Reads .name p t q → PrimaryAt p (.name t) [t.span] q

section Operators

variable (operators : List (String × Operation))
  (operand : Position → Expr → List Span → Position → Prop)

/-- Operators with further operands after the expression `left`; they group to the left. -/
inductive OperandsAt : Expr → Position → Expr → List Span → Position → Prop
  | none {left : Expr} {p : Position} : OperandsAt left p left [] p
  | more {left right e : Expr} {p p₁ p₂ q : Position} {text : String} {operation : Operation}
    {op : Token} {spans spans' : List Span} :
    (text, operation) ∈ operators → Reads (.fixed text) p op p₁ → operand p₁ right spans p₂ →
    OperandsAt (.binary operation left op right) p₂ e spans' q →
    OperandsAt left p e (op.span :: (spans ++ spans')) q

inductive JoinedAt : Position → Expr → List Span → Position → Prop
  | mk {p p₁ q : Position} {first e : Expr} {spans spans' : List Span} :
    operand p first spans p₁ → OperandsAt operators operand first p₁ e spans' q →
    JoinedAt p e (spans ++ spans') q

end Operators

def SumAt : Position → Expr → List Span → Position → Prop :=
  JoinedAt [("+", .add), ("-", .sub)] PrimaryAt

def ExprAt : Position → Expr → List Span → Position → Prop :=
  JoinedAt [("<", .less)] SumAt

inductive NamesAt : Position → List Token → List Span → Position → Prop
  | last {p q : Position} {name : Token} :
    Reads .identifier p name q → NamesAt p [name] [name.span] q
  | more {p p₁ p₂ q : Position} {name comma : Token} {names : List Token} {spans : List Span} :
    Reads .identifier p name p₁ → Reads (.fixed ",") p₁ comma p₂ → NamesAt p₂ names spans q →
    NamesAt p (name :: names) (name.span :: comma.span :: spans) q

mutual

inductive BlockAt : Position → Block → List Span → Position → Prop
  | mk {p p₁ p₂ q : Position} {left right : Token} {items : List Stmt} {spans : List Span} :
    Reads (.fixed "\x7b") p left p₁ → StatementsAt p₁ items spans p₂ →
    Reads (.fixed "\x7d") p₂ right q →
    BlockAt p (.mk left items right) (left.span :: (spans ++ [right.span])) q

inductive StatementsAt : Position → List Stmt → List Span → Position → Prop
  | none {p : Position} : StatementsAt p [] [] p
  | more {p p₁ q : Position} {item : Stmt} {items : List Stmt} {spans spans' : List Span} :
    StatementAt p item spans p₁ → StatementsAt p₁ items spans' q →
    StatementsAt p (item :: items) (spans ++ spans') q

inductive StatementAt : Position → Stmt → List Span → Position → Prop
  | block {p q : Position} {body : Block} {spans : List Span} :
    BlockAt p body spans q → StatementAt p (.block body) spans q
  | ifThen {p p₁ p₂ q : Position} {keyword : Token} {condition : Expr} {yes : Block}
    {spans spans' : List Span} :
    Reads (.keyword "if") p keyword p₁ → ExprAt p₁ condition spans p₂ → BlockAt p₂ yes spans' q →
    StatementAt p (.ifThen keyword condition yes) (keyword.span :: (spans ++ spans')) q
  | ifElse {p p₁ p₂ p₃ p₄ q : Position} {keyword other : Token} {condition : Expr} {yes no : Block}
    {spans spans' spans'' : List Span} :
    Reads (.keyword "if") p keyword p₁ → ExprAt p₁ condition spans p₂ → BlockAt p₂ yes spans' p₃ →
    Reads (.keyword "else") p₃ other p₄ → BlockAt p₄ no spans'' q →
    StatementAt p (.ifElse keyword condition yes no)
      (keyword.span :: (spans ++ (spans' ++ other.span :: spans''))) q
  | ret {p p₁ q : Position} {marker : Token} {value : Expr} {spans : List Span} :
    Reads (.fixed ":") p marker p₁ → ExprAt p₁ value spans q →
    StatementAt p (.ret marker value) (marker.span :: spans) q
  | directive {p p₁ p₂ q : Position} {name bang : Token} {args : List Token} {spans : List Span} :
    Reads .directiveName p name p₁ → Reads (.fixed "!") p₁ bang p₂ → NamesAt p₂ args spans q →
    StatementAt p (.directive name bang args) (name.span :: bang.span :: spans) q

end

inductive DeclarationAt : Position → FunctionDecl → List Span → Position → Prop
  | mk {p p₁ p₂ q : Position} {name : Token} {s : Signature} {body : Block}
    {spans spans' : List Span} :
    Reads .identifier p name p₁ → SignatureAt p₁ s spans p₂ → BlockAt p₂ body spans' q →
    DeclarationAt p ⟨name, s, body⟩ (name.span :: (spans ++ spans')) q

inductive DeclarationsAt : Position → List FunctionDecl → List Span → Position → Prop
  | none {p : Position} : DeclarationsAt p [] [] p
  | more {p p₁ q : Position} {d : FunctionDecl} {rest : List FunctionDecl}
    {spans spans' : List Span} :
    DeclarationAt p d spans p₁ → DeclarationsAt p₁ rest spans' q →
    DeclarationsAt p (d :: rest) (spans ++ spans') q

/-- The whole source is derived, up to blanks at its end. -/
def Derives (source : String) (program : Program) (spans : List Span) : Prop :=
  ∃ q, DeclarationsAt (.start source) program.declarations spans q ∧
    ∀ c ∈ q.rest, Text.isBlank c = true

end Derivation

end KestrelCompiler
