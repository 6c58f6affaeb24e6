import KestrelCompiler.Phrase
import KestrelCompiler.Proofs.Concatenation.Displacement

/-!
Nodes of syntax trees that have a span of their own, and what it means that the text under this span
is read to the same node again, with its places counted from the start of that text.
-/

namespace KestrelCompiler

namespace Location

/-- The point as counted from `origin` on. Columns are counted anew behind the first line feed. -/
def since (origin l : Location) : Location where
  index := l.index - origin.index
  line := l.line - origin.line
  column := if l.line = origin.line then l.column - origin.column else l.column
  offset := l.offset - origin.offset

variable {origin l : Location}

theorem since_self (l : Location) : l.since l = start := by
  simp only [since, Int.sub_self, if_true]
  rfl

theorem since_advance (h : origin.line ≤ l.line) (c : Char) :
    origin.since (l.advance c) = (origin.since l).advance c := by
  by_cases hc : c = '\n'
  · have hne : l.line + 1 ≠ origin.line := by omega
    simp only [since, Location.advance, hc, if_true, if_neg hne, Location.mk.injEq]
    exact ⟨by omega, by omega, trivial, by omega⟩
  · simp only [since, Location.advance, hc, if_false, Location.mk.injEq]
    refine ⟨by omega, trivial, ?_, by omega⟩
    split <;> omega

theorem since_walk_of_le (h : origin.line ≤ l.line) (text : List Char) :
    origin.since (l.walk text) = (origin.since l).walk text := by
  induction text generalizing l with
  | nil => rfl
  | cons c rest ih =>
      have hline : origin.line ≤ (l.advance c).line := by
        simp only [Location.advance]
        split <;> omega
      rw [walk_cons, walk_cons, ih hline, since_advance h]

/-- From the point itself a text is walked over as from the start. -/
theorem since_walk (l : Location) (text : List Char) : l.since (l.walk text) = start.walk text := by
  rw [since_walk_of_le (Int.le_refl _), since_self]

end Location

def Token.since (origin : Location) (t : Token) : Token :=
  { t with span := ⟨origin.since t.span.start, origin.since t.span.stop⟩ }

/-- A node that has a span and a rule of its own. -/
inductive Node where
  | type (t : TypeExpr)
  | signature (s : Signature)
  | expression (e : Expr)
  | block (b : Block)
  | directive (name bang : Token) (args : List Token)

namespace Node

def span : Node → Span
  | type t => t.span
  | signature s => s.span
  | expression e => e.span
  | block b => b.span
  | directive name bang args => Stmt.directiveSpan name bang args

def ruleName : Node → RuleName
  | type _ => .type
  | signature _ => .signature
  | expression _ => .expression
  | block _ => .block
  | directive _ _ _ => .directive

def phrase : Node → Phrase
  | type t => .type t
  | signature s => .signature s
  | expression e => .expression e
  | block b => .block b
  | directive name bang args => .statement (.directive name bang args)

def mapTokens (f : Token → Token) : Node → Node
  | type t => .type (t.mapTokens f)
  | signature s => .signature (s.mapTokens f)
  | expression e => .expression (e.mapTokens f)
  | block b => .block (b.mapTokens f)
  | directive name bang args => .directive (f name) (f bang) (args.map f)

/-- The node with all its places counted from `origin` on. -/
def since (origin : Location) (node : Node) : Node :=
  node.mapTokens (Token.since origin)

/-- Under the span of the node stands a text that its rule reads to the end, and what it gives is the
node with all places shifted back by the start of the span. -/
def Rereads (source : List Char) (node : Node) : Prop :=
  ∃ text, (Cursor.mk source .start).textOf? node.span = some text ∧
    node.ruleName.rule ⟨text, .start⟩ =
      (.matched (node.since node.span.start).phrase, ⟨text, Location.start.walk text⟩)

end Node

mutual

/-- The nodes of a type: itself and those inside it. A function type holds a signature. -/
def TypeExpr.nodes : TypeExpr → List Node
  | .named name => [.type (.named name)]
  | .pointer inner star => .type (.pointer inner star) :: inner.nodes
  | .function args none left right =>
    .type (.function args none left right) :: .signature ⟨args, none, left, right⟩ ::
      TypeExpr.nodesOf args
  | .function args (some ret) left right =>
    .type (.function args (some ret) left right) :: .signature ⟨args, some ret, left, right⟩ ::
      (TypeExpr.nodesOf args ++ ret.nodes)

def TypeExpr.nodesOf : List TypeExpr → List Node
  | [] => []
  | type :: rest => type.nodes ++ TypeExpr.nodesOf rest

end

def Signature.nodes (s : Signature) : List Node :=
  .signature s :: (TypeExpr.nodesOf s.args ++ s.ret.elim [] TypeExpr.nodes)

def Expr.nodes : Expr → List Node
  | .number token => [.expression (.number token)]
  | .string token => [.expression (.string token)]
  | .name token => [.expression (.name token)]
  | .binary operation left op right =>
    .expression (.binary operation left op right) :: (left.nodes ++ right.nodes)

mutual

def Block.nodes : Block → List Node
  | .mk left items right => .block (.mk left items right) :: Stmt.nodesOf items

/-- The nodes of a statement. Of the statements themselves only blocks and directives have a span. -/
def Stmt.nodes : Stmt → List Node
  | .block body => body.nodes
  | .ifThen _ condition yes => condition.nodes ++ yes.nodes
  | .ifElse _ condition yes no => condition.nodes ++ (yes.nodes ++ no.nodes)
  | .ret _ value => value.nodes
  | .directive name bang args => [.directive name bang args]

def Stmt.nodesOf : List Stmt → List Node
  | [] => []
  | item :: rest => item.nodes ++ Stmt.nodesOf rest

end

def FunctionDecl.nodes (d : FunctionDecl) : List Node :=
  d.signature.nodes ++ d.body.nodes

def Program.nodes (p : Program) : List Node :=
  p.declarations.flatMap FunctionDecl.nodes

namespace Phrase

/-- The nodes of a phrase, at any depth. -/
def nodes : Phrase → List Node
  | token _ => []
  | type t => t.nodes
  | signature s => s.nodes
  | expression e => e.nodes
  | binary _ left _ right => left.nodes ++ right.nodes
  | block b => b.nodes
  | statement s => s.nodes
  | declaration d => d.nodes
  | program p => p.nodes

end Phrase

section Unchanged

mutual

theorem TypeExpr.mapTokens_id : ∀ type : TypeExpr, type.mapTokens id = type
  | .named _ => rfl
  | .pointer inner star => by rw [mapTokens, mapTokens_id inner, id]
  | .function args none left right => by rw [mapTokens, mapTokensAll_id args, id, id]
  | .function args (some ret) left right => by
    rw [mapTokens, mapTokensAll_id args, mapTokens_id ret, id, id]

theorem TypeExpr.mapTokensAll_id : ∀ types : List TypeExpr, mapTokensAll id types = types
  | [] => rfl
  | type :: rest => by rw [mapTokensAll, TypeExpr.mapTokens_id type, mapTokensAll_id rest]

end

theorem Signature.mapTokens_id (s : Signature) : s.mapTokens id = s := by
  obtain ⟨args, ret, left, right⟩ := s
  cases ret <;> simp [mapTokens, TypeExpr.mapTokens_id]

theorem Expr.mapTokens_id (e : Expr) : e.mapTokens id = e := by
  induction e with
  | number _ | string _ | name _ => rfl
  | binary _ _ _ _ ihleft ihright => rw [mapTokens, ihleft, ihright, id]

mutual

theorem Block.mapTokens_id : ∀ b : Block, b.mapTokens id = b
  | .mk left items right => by
    rw [Block.mapTokens, Stmt.mapTokensAll_id items, id, id]

theorem Stmt.mapTokens_id : ∀ s : Stmt, s.mapTokens id = s
  | .block body => by rw [Stmt.mapTokens, Block.mapTokens_id body]
  | .ifThen keyword condition yes => by
    rw [Stmt.mapTokens, Expr.mapTokens_id, Block.mapTokens_id yes, id]
  | .ifElse keyword condition yes no => by
    rw [Stmt.mapTokens, Expr.mapTokens_id, Block.mapTokens_id yes, Block.mapTokens_id no, id]
  | .ret marker value => by rw [Stmt.mapTokens, Expr.mapTokens_id, id]
  | .directive name bang args => by rw [Stmt.mapTokens, List.map_id, id, id]

theorem Stmt.mapTokensAll_id : ∀ items : List Stmt, Stmt.mapTokensAll id items = items
  | [] => rfl
  | item :: rest => by
    rw [Stmt.mapTokensAll, Stmt.mapTokens_id item, Stmt.mapTokensAll_id rest]

end

theorem Node.mapTokens_id (node : Node) : node.mapTokens id = node := by
  cases node with
  | type t => exact congrArg Node.type t.mapTokens_id
  | signature s => exact congrArg Node.signature s.mapTokens_id
  | expression e => exact congrArg Node.expression e.mapTokens_id
  | block b => exact congrArg Node.block b.mapTokens_id
  | directive name bang args => rw [mapTokens, List.map_id, id, id]

end Unchanged

end KestrelCompiler
