import KestrelCompiler.Phrase
import KestrelCompiler.Text.Blank

/-!
Syntax trees as parts in the order of the source: a part is a lexeme that the tree keeps, or a node
with the parts it is made of. A lexeme knows which words, kept nowhere in the tree, may stand in
front of it. The span of a node goes from the start of its first lexeme to the end of its last one.
-/

namespace KestrelCompiler

/-- What may stand in front of a lexeme besides blanks. -/
inductive Separator where
  | blank
  | comma
  /-- A comma after the last type of a list, which may be left out. -/
  | lastComma
  | alternative
  deriving DecidableEq

namespace Separator

/-- One of these words stands in front of the lexeme. -/
def words : Separator → List String
  | blank => [""]
  | comma => [","]
  | lastComma => ["", ","]
  | alternative => ["else"]

/-- The text is one of the words, with blanks around it. -/
def Allows (s : Separator) (text : List Char) : Prop :=
  ∃ before after, ∃ word ∈ s.words, text = before ++ (word.toList ++ after) ∧
    ∀ c ∈ before ++ after, Text.isBlank c = true

end Separator

/-- A lexeme that a tree keeps. -/
structure Leaf where
  token : Token
  before : Separator := .blank
  isString : Bool := false

inductive Part where
  | leaf (l : Leaf)
  /-- A node with its span, if it has one of its own. -/
  | node (span? : Option Span) (parts : List Part)

namespace Token

/-- From the start of the first token to the end of the last one. -/
def hull? (tokens : List Token) : Option Span := do
  let first ← tokens.head?
  let last ← tokens.getLast?
  some (first.span.cover last.span)

theorem hull?_singleton (t : Token) : hull? [t] = some t.span := rfl

theorem hull?_cons_cons (t u : Token) (rest : List Token) :
    hull? (t :: u :: rest) = (hull? (u :: rest)).map t.span.cover := by
  simp only [hull?, List.head?_cons, List.getLast?_cons_cons, Option.bind_eq_bind, Option.bind_some]
  cases (u :: rest).getLast? <;> rfl

theorem hull?_eq_some {tokens : List Token} {s : Span} : hull? tokens = some s ↔
    ∃ first ∈ tokens.head?, ∃ last ∈ tokens.getLast?, first.span.cover last.span = s := by
  simp [hull?, Option.bind_eq_some_iff]

theorem hull?_append {front middle back : List Token} {s t : Span} (hfront : hull? front = some s)
    (hback : hull? back = some t) : hull? (front ++ (middle ++ back)) = some (s.cover t) := by
  obtain ⟨first, hfirst, -, -, rfl⟩ := hull?_eq_some.mp hfront
  obtain ⟨-, -, last, hlast, rfl⟩ := hull?_eq_some.mp hback
  refine hull?_eq_some.mpr ⟨first, ?_, last, ?_, rfl⟩
  · rw [List.head?_append, hfirst]
    rfl
  · rw [List.getLast?_append, List.getLast?_append, hlast]
    rfl

end Token

namespace Part

mutual

def leaves : Part → List Leaf
  | leaf l => [l]
  | node _ parts => leavesOf parts

def leavesOf : List Part → List Leaf
  | [] => []
  | p :: rest => p.leaves ++ leavesOf rest

end

mutual

/-- The spans of all lexemes and of all nodes that have one of their own. -/
def spans : Part → List Span
  | leaf l => [l.token.span]
  | node span? parts => span?.toList ++ spansOf parts

def spansOf : List Part → List Span
  | [] => []
  | p :: rest => p.spans ++ spansOf rest

end

def tokens (p : Part) : List Token :=
  p.leaves.map (·.token)

def tokensOf (parts : List Part) : List Token :=
  (leavesOf parts).map (·.token)

/-- The stretch of the source that a part takes up. -/
def extent? : Part → Option Span
  | leaf l => some l.token.span
  | node (some s) _ => some s
  | node none parts => Token.hull? (tokensOf parts)

/-- Every part lies inside the node it belongs to, and before the next part of this node. -/
inductive Nested : Part → Prop
  | leaf {l : Leaf} : Nested (.leaf l)
  | node {span? : Option Span} {parts : List Part} :
    (∀ outer ∈ extent? (.node span? parts), ∀ p ∈ parts, ∀ inner ∈ p.extent?,
      outer.start ≤ inner.start ∧ inner.stop ≤ outer.stop) →
    parts.Pairwise (fun a b => ∀ s ∈ a.extent?, ∀ t ∈ b.extent?, s.stop ≤ t.start) →
    (∀ p ∈ parts, p.Nested) → Nested (.node span? parts)

/-- Every node with a span of its own has the one from its first lexeme to its last one. -/
inductive Spanned : Part → Prop
  | leaf {l : Leaf} : Spanned (.leaf l)
  | node {span? : Option Span} {parts : List Part} :
    (∀ s ∈ span?, Token.hull? (tokensOf parts) = some s) → (∀ p ∈ parts, p.Spanned) →
    Spanned (.node span? parts)

@[simp] theorem tokens_leaf (l : Leaf) : (leaf l).tokens = [l.token] := rfl

@[simp] theorem tokens_node (span? : Option Span) (parts : List Part) :
    (node span? parts).tokens = tokensOf parts := rfl

@[simp] theorem tokensOf_nil : tokensOf [] = [] := rfl

@[simp] theorem tokensOf_cons (p : Part) (rest : List Part) :
    tokensOf (p :: rest) = p.tokens ++ tokensOf rest :=
  List.map_append

@[simp] theorem tokensOf_singleton (p : Part) : tokensOf [p] = p.tokens := by
  rw [tokensOf_cons]
  exact List.append_nil _

@[simp] theorem tokensOf_append (parts rest : List Part) :
    tokensOf (parts ++ rest) = tokensOf parts ++ tokensOf rest := by
  induction parts with
  | nil => rfl
  | cons p parts ih => rw [List.cons_append, tokensOf_cons, tokensOf_cons, ih, List.append_assoc]

theorem Spanned.extent?_eq {p : Part} (h : p.Spanned) :
    ∀ s ∈ p.extent?, Token.hull? p.tokens = some s := by
  intro s hs
  cases h with
  | leaf => exact hs
  | @node span? parts hown _ =>
      cases span? with
      | none => exact hs
      | some own => exact (hown own rfl).trans hs

/-- A node with the span from its first part to its last one. -/
theorem spanned_node {first last : Part} {middle : List Part} {s t : Span}
    (hfirst : first.extent? = some s) (hlast : last.extent? = some t)
    (h : ∀ p ∈ first :: (middle ++ [last]), p.Spanned) :
    (node (some (s.cover t)) (first :: (middle ++ [last]))).Spanned := by
  have hfront := (h first List.mem_cons_self).extent?_eq s hfirst
  have hback := (h last (by simp)).extent?_eq t hlast
  refine .node ?_ h
  rintro own ⟨⟩
  rw [tokensOf_cons, tokensOf_append, tokensOf_singleton]
  exact Token.hull?_append hfront hback

theorem spanned_single {p : Part} {s : Span} (hs : p.extent? = some s) (h : p.Spanned) :
    (node (some s) [p]).Spanned := by
  refine .node ?_ (by simpa using h)
  rintro own ⟨⟩
  rw [tokensOf_singleton]
  exact h.extent?_eq s hs

end Part

open KestrelCompiler.Part

namespace Token

def part (t : Token) : Part :=
  .leaf { token := t }

/-- The names of a list; what may stand in front of the first one is given. -/
def parts : Separator → List Token → List Part
  | _, [] => []
  | before, name :: rest => .leaf { token := name, before } :: parts .comma rest

/-- A parenthesis that closes a list of types. -/
def closing (right : Token) (types : List TypeExpr) : Part :=
  .leaf { token := right, before := if types.isEmpty then .blank else .lastComma }

end Token

mutual

def TypeExpr.part : Separator → TypeExpr → Part
  | before, .named name => .node (some name.span) [.leaf { token := name, before }]
  | before, .pointer inner star =>
    .node (some (inner.span.cover star.span)) [inner.part before, star.part]
  | before, .function args none left right =>
    .node (some (left.span.cover right.span))
      (.leaf { token := left, before } :: (TypeExpr.parts .blank args ++ [right.closing args]))
  | before, .function args (some ret) left right =>
    .node (some (left.span.cover ret.span))
      (.leaf { token := left, before } ::
        (TypeExpr.parts .blank args ++ [right.closing args] ++ [ret.part .blank]))

/-- The types of a list; what may stand in front of the first one is given. -/
def TypeExpr.parts : Separator → List TypeExpr → List Part
  | _, [] => []
  | before, type :: rest => type.part before :: TypeExpr.parts .comma rest

end

def Signature.part (s : Signature) : Part :=
  s.toType.part .blank

def Expr.part : Expr → Part
  | .number token | .name token => .node (some token.span) [token.part]
  | .string token => .node (some token.span) [.leaf { token, isString := true }]
  | .binary _ left op right =>
    .node (some (left.span.cover right.span)) [left.part, op.part, right.part]

mutual

def Block.part : Separator → Block → Part
  | before, .mk left items right =>
    .node (some (left.span.cover right.span))
      (.leaf { token := left, before } :: (Stmt.parts items ++ [right.part]))

def Stmt.part : Stmt → Part
  | .block body => body.part .blank
  | .ifThen keyword condition yes =>
    .node none [keyword.part, condition.part, yes.part .blank]
  | .ifElse keyword condition yes no =>
    .node none [keyword.part, condition.part, yes.part .blank, no.part .alternative]
  | .ret marker value => .node none [marker.part, value.part]
  | .directive name bang args =>
    .node (some (Stmt.directiveSpan name bang args))
      (name.part :: bang.part :: Token.parts .blank args)

def Stmt.parts : List Stmt → List Part
  | [] => []
  | item :: rest => item.part :: Stmt.parts rest

end

def FunctionDecl.part (d : FunctionDecl) : Part :=
  .node none [d.name.part, d.signature.part, d.body.part .blank]

def Program.part (p : Program) : Part :=
  .node none (p.declarations.map FunctionDecl.part)

def Phrase.part : Phrase → Part
  | token t => t.part
  | type t => t.part .blank
  | signature s => s.part
  | expression e => e.part
  | binary operation left op right =>
    .node (span? (.binary operation left op right)) [left.part, op.part, right.part]
  | block b => b.part .blank
  | statement s => s.part
  | declaration d => d.part
  | program p => p.part

section Spans

theorem TypeExpr.extent?_part (before : Separator) (type : TypeExpr) :
    (type.part before).extent? = some type.span := by
  rcases type with _ | _ | ⟨args, _ | ret, left, right⟩ <;> rfl

theorem Expr.extent?_part (e : Expr) : e.part.extent? = some e.span := by
  cases e <;> rfl

theorem Block.extent?_part (before : Separator) (b : Block) :
    (b.part before).extent? = some b.span := by
  cases b
  rfl

mutual

theorem TypeExpr.spanned_part : ∀ (before : Separator) (type : TypeExpr),
    (type.part before).Spanned
  | _, .named _ => spanned_single rfl .leaf
  | before, .pointer inner star => by
    refine @spanned_node _ star.part [] _ _ (inner.extent?_part before) rfl ?_
    exact List.forall_mem_cons.mpr
      ⟨TypeExpr.spanned_part before inner, List.forall_mem_singleton.mpr .leaf⟩
  | _, .function args none _ _ => by
    refine spanned_node rfl rfl ?_
    simp only [List.forall_mem_cons, List.forall_mem_append]
    exact ⟨.leaf, TypeExpr.spanned_parts .blank args, .leaf, nofun⟩
  | _, .function args (some ret) _ _ => by
    refine spanned_node rfl (ret.extent?_part .blank) ?_
    simp only [List.forall_mem_cons, List.forall_mem_append]
    exact ⟨.leaf, ⟨TypeExpr.spanned_parts .blank args, .leaf, nofun⟩,
      TypeExpr.spanned_part .blank ret, nofun⟩

theorem TypeExpr.spanned_parts : ∀ (before : Separator) (types : List TypeExpr),
    ∀ p ∈ TypeExpr.parts before types, p.Spanned
  | _, [] => nofun
  | before, type :: rest => List.forall_mem_cons.mpr
    ⟨TypeExpr.spanned_part before type, TypeExpr.spanned_parts .comma rest⟩

end

theorem Expr.spanned_part (e : Expr) : e.part.Spanned := by
  induction e with
  | number _ | string _ | name _ => exact spanned_single rfl .leaf
  | binary operation left op right ihleft ihright =>
      refine @spanned_node _ _ [op.part] _ _ left.extent?_part right.extent?_part ?_
      simp only [List.forall_mem_cons, List.singleton_append]
      exact ⟨ihleft, .leaf, ihright, nofun⟩

theorem Token.spanned_parts (before : Separator) (names : List Token) :
    ∀ p ∈ Token.parts before names, p.Spanned := by
  induction names generalizing before with
  | nil => nofun
  | cons name rest ih => exact List.forall_mem_cons.mpr ⟨.leaf, ih .comma⟩

theorem Token.exists_parts_append (before : Separator) (names : List Token) (last : Token) :
    ∃ front s,
      Token.parts before (names ++ [last]) = front ++ [.leaf { token := last, before := s }] := by
  induction names generalizing before with
  | nil => exact ⟨[], before, rfl⟩
  | cons name rest ih =>
      obtain ⟨front, s, hparts⟩ := ih .comma
      exact ⟨.leaf { token := name, before } :: front, s, congrArg (List.cons _) hparts⟩

/-- The last part of a directive is its last argument. -/
theorem Stmt.spanned_directive (name bang : Token) (args : List Token) :
    (Stmt.directive name bang args).part.Spanned := by
  have hparts : ∀ p ∈ name.part :: bang.part :: Token.parts .blank args, p.Spanned := by
    simp only [List.forall_mem_cons]
    exact ⟨.leaf, .leaf, Token.spanned_parts .blank args⟩
  rcases List.eq_nil_or_concat args with rfl | ⟨others, last, rfl⟩
  · exact @spanned_node name.part bang.part [] _ _ rfl rfl hparts
  · rw [List.concat_eq_append] at hparts ⊢
    obtain ⟨front, s, hlast⟩ := Token.exists_parts_append .blank others last
    have hspan : Stmt.directiveSpan name bang (others ++ [last]) = name.span.cover last.span := by
      rw [Stmt.directiveSpan, List.getLastD_concat]
    rw [hlast] at hparts
    rw [Stmt.part, hlast, hspan]
    exact @spanned_node name.part (.leaf { token := last, before := s }) (bang.part :: front) _ _
      rfl rfl hparts

mutual

theorem Block.spanned_part : ∀ (before : Separator) (b : Block), (b.part before).Spanned
  | _, .mk _ items _ => by
    refine spanned_node rfl rfl ?_
    simp only [List.forall_mem_cons, List.forall_mem_append]
    exact ⟨.leaf, Stmt.spanned_parts items, .leaf, nofun⟩

theorem Stmt.spanned_part : ∀ s : Stmt, s.part.Spanned
  | .block body => Block.spanned_part .blank body
  | .ifThen _ condition yes => by
    refine .node nofun ?_
    simp only [List.forall_mem_cons]
    exact ⟨.leaf, condition.spanned_part, Block.spanned_part .blank yes, nofun⟩
  | .ifElse _ condition yes no => by
    refine .node nofun ?_
    simp only [List.forall_mem_cons]
    exact ⟨.leaf, condition.spanned_part, Block.spanned_part .blank yes,
      Block.spanned_part .alternative no, nofun⟩
  | .ret _ value => by
    refine .node nofun ?_
    simp only [List.forall_mem_cons]
    exact ⟨.leaf, value.spanned_part, nofun⟩
  | .directive name bang args => Stmt.spanned_directive name bang args

theorem Stmt.spanned_parts : ∀ items : List Stmt, ∀ p ∈ Stmt.parts items, p.Spanned
  | [] => nofun
  | item :: rest => List.forall_mem_cons.mpr ⟨Stmt.spanned_part item, Stmt.spanned_parts rest⟩

end

theorem FunctionDecl.spanned_part (d : FunctionDecl) : d.part.Spanned := by
  refine .node nofun ?_
  simp only [List.forall_mem_cons]
  exact ⟨.leaf, d.signature.toType.spanned_part .blank, d.body.spanned_part .blank, nofun⟩

theorem Program.spanned_part (p : Program) : p.part.Spanned := by
  refine .node nofun fun part hpart => ?_
  obtain ⟨d, -, rfl⟩ := List.mem_map.mp hpart
  exact d.spanned_part

theorem Phrase.extent?_part {phrase : Phrase} {s : Span} (h : phrase.span? = some s) :
    phrase.part.extent? = some s := by
  cases phrase with
  | token t => exact h
  | type t => exact (t.extent?_part .blank).trans h
  | signature t => exact (t.toType.extent?_part .blank).trans h
  | expression e => exact e.extent?_part.trans h
  | block b => exact (b.extent?_part .blank).trans h
  | binary operation left op right =>
      rw [part, h]
      rfl
  | statement item =>
      cases item with
      | block body => exact (body.extent?_part .blank).trans h
      | directive name bang args => exact h
      | ifThen _ _ _ | ifElse _ _ _ _ | ret _ _ => cases h
  | declaration _ | program _ => cases h

theorem Phrase.spanned_part (phrase : Phrase) : phrase.part.Spanned := by
  induction phrase with
  | token t => exact .leaf
  | type t => exact t.spanned_part .blank
  | signature t => exact t.toType.spanned_part .blank
  | expression e => exact e.spanned_part
  | block b => exact b.spanned_part .blank
  | statement item => exact item.spanned_part
  | declaration d => exact d.spanned_part
  | program p => exact p.spanned_part
  | binary operation left op right ihleft ihright =>
      have hparts : ∀ p ∈ left.part :: ([op.part] ++ [right.part]), p.Spanned := by
        simp only [List.forall_mem_cons, List.singleton_append]
        exact ⟨ihleft, .leaf, ihright, nofun⟩
      cases hspan : span? (.binary operation left op right) with
      | none =>
          rw [part, hspan]
          exact .node nofun hparts
      | some s =>
          rw [part, hspan]
          obtain ⟨a, hleft, b, hright, rfl⟩ : ∃ a, left.span? = some a ∧
              ∃ b, right.span? = some b ∧ a.cover b = s := by
            simpa [span?, Option.bind_eq_some_iff] using hspan
          exact spanned_node (extent?_part hleft) (extent?_part hright) hparts

end Spans

end KestrelCompiler
