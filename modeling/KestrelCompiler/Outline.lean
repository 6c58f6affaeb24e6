import KestrelCompiler.Grammar
import KestrelCompiler.Text.Row

/-!
Outlines: syntax trees as indented lines. A tree shows its kind and the parts that carry meaning;
delimiters are left out, and so is an absent return type or branch.
-/

namespace KestrelCompiler

/-- A line with the lines that belong to it. The lines of a tree are its parts, those of a part its
items. -/
inductive Outline where
  | entry (line : String) (parts : List Outline)

namespace Outline

/-- Two blanks for each step. No line stands further out than the left margin. -/
def indent (depth : Int) : String :=
  String.ofList (List.replicate (2 * depth.toNat) ' ')

mutual

/-- The lines of a tree, which may begin outside the left margin: its parts are counted from there
once they come inside. -/
def linesOf (depth : Int) : Outline → List String
  | .entry line parts => (indent depth ++ line) :: partLines depth parts

def partLines (depth : Int) : List Outline → List String
  | [] => []
  | part :: rest => linesOfPart depth part ++ partLines depth rest

/-- A part stands one step further in than its tree, and what belongs to it two steps. -/
def linesOfPart (depth : Int) : Outline → List String
  | .entry line items => (indent depth ++ "  " ++ line) :: itemLines depth items

def itemLines (depth : Int) : List Outline → List String
  | [] => []
  | item :: rest => linesOfItem depth item ++ itemLines depth rest

/-- An item is a single word or a tree of its own. -/
def linesOfItem (depth : Int) : Outline → List String
  | .entry word [] => [indent depth ++ "    " ++ word]
  | .entry line (part :: rest) =>
    (indent (depth + 2) ++ line) :: linesOfPart (depth + 2) part ++ partLines (depth + 2) rest

end

/-- The lines, each with a line feed after it, from a given depth on. -/
def render (depth : Int) (o : Outline) : Except Text.RowError String := do
  Text.checkRow 2 depth
  .ok (String.join ((o.linesOf depth).map (· ++ "\n")))

def leaf (line : String) : Outline :=
  .entry line []

/-- A part of one line: a name and a quoted text. -/
def quoted (name text : String) : Outline :=
  leaf (name ++ ": " ++ Text.quote text)

def part (name : String) (o : Outline) : Outline :=
  .entry (name ++ ":") [o]

def list (name : String) : List Outline → Outline
  | [] => leaf (name ++ ": []")
  | items => .entry (name ++ ":") items

def signature (args : List Outline) (ret : Option Outline) : Outline :=
  .entry "FnType" (list "args" args :: (ret.map (part "ret")).toList)

def binary (label : String) (left : Outline) (op : Token) (right : Outline) : Outline :=
  .entry label [part "left" left, quoted "op" op.text, part "right" right]

end Outline

open Outline

mutual

def TypeExpr.outline : TypeExpr → Outline
  | .named name => entry "NamedType" [quoted "name" name.text]
  | .pointer inner _ => entry "PointerType" [part "inner" inner.outline]
  | .function args none _ _ =>
    entry "FunctionType" [part "signature" (signature (TypeExpr.outlines args) none)]
  | .function args (some ret) _ _ =>
    entry "FunctionType" [part "signature" (signature (TypeExpr.outlines args) ret.outline)]

def TypeExpr.outlines : List TypeExpr → List Outline
  | [] => []
  | type :: rest => type.outline :: TypeExpr.outlines rest

end

def Signature.outline (s : Signature) : Outline :=
  Outline.signature (TypeExpr.outlines s.args) (s.ret.map TypeExpr.outline)

def Operation.label : Operation → String
  | .add => "AddExpr"
  | .sub => "SubExpr"
  | .less => "LessExpr"

def Expr.outline : Expr → Outline
  | .number token => entry "NumberLit" [quoted "token" token.text]
  | .string token => entry "StringLit" [quoted "token" token.text]
  | .name token => entry "NameExpr" [quoted "token" token.text]
  | .binary operation left op right =>
    Outline.binary operation.label left.outline op right.outline

mutual

def Block.outline : Block → Outline
  | .mk _ items _ => entry "Block" [list "items" (Stmt.outlines items)]

def Stmt.outline : Stmt → Outline
  | .block body => body.outline
  | .ifThen _ condition yes =>
    entry "IfStmt" [part "condition" condition.outline, part "then" yes.outline]
  | .ifElse _ condition yes no =>
    entry "IfStmt" [part "condition" condition.outline, part "then" yes.outline,
      part "otherwise" no.outline]
  | .ret _ value => entry "ReturnStmt" [part "value" value.outline]
  | .directive name _ args =>
    entry "MacroStmt" [quoted "name" name.text,
      list "args" (args.map fun arg => leaf (Text.quote arg.text))]

def Stmt.outlines : List Stmt → List Outline
  | [] => []
  | item :: rest => item.outline :: Stmt.outlines rest

end

def FunctionDecl.outline (d : FunctionDecl) : Outline :=
  entry "FunctionDecl" [quoted "name" d.name.text, part "signature" d.signature.outline,
    part "body" d.body.outline]

def Program.outline (p : Program) : Outline :=
  entry "Program" [list "declarations" (p.declarations.map FunctionDecl.outline)]

def Location.outline (l : Location) : Outline :=
  entry "Location" [leaf ("index: " ++ toString l.index), leaf ("line: " ++ toString l.line),
    leaf ("column: " ++ toString l.column), leaf ("offset: " ++ toString l.offset)]

/-- A list of notes in parentheses; a single one has a comma after it. -/
def Outline.notes : List String → String
  | [] => "()"
  | [note] => "(" ++ Text.quote note ++ ",)"
  | notes => "(" ++ ", ".intercalate (notes.map Text.quote) ++ ")"

def Problem.outline (p : Problem) : Outline :=
  entry "Error" [part "location" p.location.outline, quoted "message" p.message,
    quoted "code" p.code, quoted "hint" p.hint, leaf ("notes: " ++ Outline.notes p.notes)]

end KestrelCompiler
