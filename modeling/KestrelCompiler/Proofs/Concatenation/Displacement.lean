import KestrelCompiler.Grammar
import KestrelCompiler.Proofs.Reading.Point

/-!
A text behind another one. All its points move by what stands before: bytes, characters and line
feeds are added, and columns are added on the first line only, since a line feed starts them anew.
A tree moves with its tokens.
-/

namespace KestrelCompiler

namespace Location

/-- Where a point of a text lies when the text stands behind `before`. -/
def behind (before : List Char) (l : Location) : Location where
  index := l.index + (String.ofList before).utf8ByteSize
  line := l.line + before.count '\n'
  column :=
    if l.line = 0 then l.column + (before.reverse.takeWhile (· ≠ '\n')).length else l.column
  offset := l.offset + before.length

/-- The point does not lie before its text. -/
structure Inside (l : Location) : Prop where
  offset : 0 ≤ l.offset
  line : 0 ≤ l.line

variable {before : List Char} {l : Location}

theorem inside_start : start.Inside :=
  ⟨Int.le_refl 0, Int.le_refl 0⟩

theorem Inside.walk (h : l.Inside) (text : List Char) : (l.walk text).Inside where
  offset := by
    have hoffset := h.offset
    rw [offset_walk]
    omega
  line := by
    have hline := h.line
    rw [line_walk]
    omega

theorem Inside.advance (h : l.Inside) (c : Char) : (l.advance c).Inside :=
  h.walk [c]

theorem behind_advance (h : l.Inside) (c : Char) :
    (l.advance c).behind before = (l.behind before).advance c := by
  have hline := h.line
  by_cases hc : c = '\n'
  · -- a line feed ends the first line, so nothing is added to the columns behind it
    have hne : l.line + 1 ≠ 0 := by omega
    simp only [behind, Location.advance, hc, if_true, if_neg hne, Location.mk.injEq]
    exact ⟨by omega, by omega, trivial, by omega⟩
  · simp only [behind, Location.advance, hc, if_false, Location.mk.injEq]
    refine ⟨by omega, trivial, ?_, by omega⟩
    split <;> omega

theorem behind_walk (h : l.Inside) (text : List Char) :
    (l.walk text).behind before = (l.behind before).walk text := by
  induction text generalizing l with
  | nil => rfl
  | cons c rest ih => rw [walk_cons, walk_cons, ih (h.advance c), behind_advance h]

theorem behind_start : start.behind before = start.walk before := by
  have hindex : (start.walk before).index = (String.ofList before).utf8ByteSize :=
    (index_walk start before).trans (Int.zero_add _)
  have hline := (line_walk start before).trans (Int.zero_add _)
  have hoffset := (offset_walk start before).trans (Int.zero_add _)
  have hcolumn := column_walk_reverse before.reverse
  rw [List.reverse_reverse] at hcolumn
  generalize start.walk before = l at hoffset hindex hline hcolumn
  obtain ⟨index, line, column, offset⟩ := l
  simp only at hoffset hindex hline hcolumn
  simp [behind, start, hoffset, hindex, hline, hcolumn]

end Location

def Span.behind (before : List Char) (s : Span) : Span :=
  ⟨s.start.behind before, s.stop.behind before⟩

def Token.behind (before : List Char) (t : Token) : Token :=
  { t with span := t.span.behind before }

def Problem.behind (before : List Char) (p : Problem) : Problem :=
  { p with location := p.location.behind before }

mutual

/-- The type with its tokens replaced. -/
def TypeExpr.mapTokens (f : Token → Token) : TypeExpr → TypeExpr
  | .named name => .named (f name)
  | .pointer inner star => .pointer (inner.mapTokens f) (f star)
  | .function args none left right =>
    .function (TypeExpr.mapTokensAll f args) none (f left) (f right)
  | .function args (some ret) left right =>
    .function (TypeExpr.mapTokensAll f args) (some (ret.mapTokens f)) (f left) (f right)

def TypeExpr.mapTokensAll (f : Token → Token) : List TypeExpr → List TypeExpr
  | [] => []
  | type :: rest => type.mapTokens f :: TypeExpr.mapTokensAll f rest

end

def Signature.mapTokens (f : Token → Token) (s : Signature) : Signature :=
  ⟨s.args.map (·.mapTokens f), s.ret.map (·.mapTokens f), f s.left, f s.right⟩

def Expr.mapTokens (f : Token → Token) : Expr → Expr
  | .number token => .number (f token)
  | .string token => .string (f token)
  | .name token => .name (f token)
  | .binary operation left op right =>
    .binary operation (left.mapTokens f) (f op) (right.mapTokens f)

mutual

def Block.mapTokens (f : Token → Token) : Block → Block
  | .mk left items right => .mk (f left) (Stmt.mapTokensAll f items) (f right)

def Stmt.mapTokens (f : Token → Token) : Stmt → Stmt
  | .block body => .block (body.mapTokens f)
  | .ifThen keyword condition yes =>
    .ifThen (f keyword) (condition.mapTokens f) (yes.mapTokens f)
  | .ifElse keyword condition yes no =>
    .ifElse (f keyword) (condition.mapTokens f) (yes.mapTokens f) (no.mapTokens f)
  | .ret marker value => .ret (f marker) (value.mapTokens f)
  | .directive name bang args => .directive (f name) (f bang) (args.map f)

def Stmt.mapTokensAll (f : Token → Token) : List Stmt → List Stmt
  | [] => []
  | item :: rest => item.mapTokens f :: Stmt.mapTokensAll f rest

end

def FunctionDecl.mapTokens (f : Token → Token) (d : FunctionDecl) : FunctionDecl :=
  ⟨f d.name, d.signature.mapTokens f, d.body.mapTokens f⟩

section Moved

variable (before : List Char)

def TypeExpr.behind (type : TypeExpr) : TypeExpr :=
  type.mapTokens (Token.behind before)

def Signature.behind (s : Signature) : Signature :=
  s.mapTokens (Token.behind before)

def Expr.behind (e : Expr) : Expr :=
  e.mapTokens (Token.behind before)

def Block.behind (b : Block) : Block :=
  b.mapTokens (Token.behind before)

def Stmt.behind (s : Stmt) : Stmt :=
  s.mapTokens (Token.behind before)

/-- The declaration in a text behind another one. -/
def FunctionDecl.behind (d : FunctionDecl) : FunctionDecl :=
  d.mapTokens (Token.behind before)

end Moved

section Trees

variable (f : Token → Token)

theorem TypeExpr.mapTokensAll_eq_map (types : List TypeExpr) :
    mapTokensAll f types = types.map (·.mapTokens f) := by
  induction types with
  | nil => rfl
  | cons type rest ih => rw [mapTokensAll, ih, List.map_cons]

theorem Stmt.mapTokensAll_eq_map (items : List Stmt) :
    mapTokensAll f items = items.map (·.mapTokens f) := by
  induction items with
  | nil => rfl
  | cons item rest ih => rw [mapTokensAll, ih, List.map_cons]

theorem Signature.toType_mapTokens (s : Signature) :
    (s.mapTokens f).toType = s.toType.mapTokens f := by
  obtain ⟨args, ret, left, right⟩ := s
  cases ret <;> simp [Signature.mapTokens, toType, TypeExpr.mapTokens, TypeExpr.mapTokensAll_eq_map]

theorem Block.mapTokens_mk (left right : Token) (items : List Stmt) :
    (Block.mk left items right).mapTokens f =
      .mk (f left) (items.map (·.mapTokens f)) (f right) := by
  rw [mapTokens, Stmt.mapTokensAll_eq_map]

end Trees

end KestrelCompiler
