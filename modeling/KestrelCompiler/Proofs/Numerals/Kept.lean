import KestrelCompiler.Proofs.Likeness.Emission
import KestrelCompiler.Proofs.Numerals.Literal

/-!
Programs with other tokens. As long as number literals keep their values and all other tokens their
texts, programs are emitted alike: to the same module, or with a fault both.
-/

namespace KestrelCompiler

/-- All faults correspond. -/
def AnyFault (_ _ : LoweringFault) : Prop :=
  True

variable {f : Token → Token}

/-- A number literal keeps its value, and every other token its text. -/
def Token.Kept (f : Token → Token) : Token × Bool → Prop
  | (t, true) => numberValue? (f t).text.toList = numberValue? t.text.toList
  | (t, false) => (f t).text = t.text

theorem sameAt_anyFault (l l' : Location) : SameAt AnyFault l l' :=
  fun _ => trivial

theorem Token.Kept.like {t : Token} (h : Token.Kept f (t, false)) : t.Like AnyFault (f t) :=
  ⟨h, sameAt_anyFault _ _⟩

theorem Expr.like_mapTokens {e : Expr} (h : ∀ entry ∈ e.marked, Token.Kept f entry) :
    e.Like AnyFault (e.mapTokens f) := by
  induction e with
  | number token =>
      exact .number (h _ (List.mem_singleton_self _)) trivial (sameAt_anyFault _ _)
  | string token => exact .string (h _ (List.mem_singleton_self _)).like
  | name token => exact .name (h _ (List.mem_singleton_self _)).like
  | binary operation left op right ihl ihr =>
      simp only [marked, List.forall_mem_append, List.forall_mem_cons] at h
      exact .binary operation (ihl h.1) h.2.1 (ihr h.2.2)

theorem Token.forall_kept_unmarked {tokens : List Token} :
    (∀ entry ∈ unmarked tokens, Kept f entry) ↔ ∀ t ∈ tokens, (f t).text = t.text := by
  simp [unmarked, Kept]

mutual

theorem Block.like_mapTokens : ∀ b : Block, (∀ entry ∈ b.marked, Token.Kept f entry) →
    b.Like AnyFault (b.mapTokens f)
  | .mk _ items _, h => by
    simp only [Block.marked, List.forall_mem_append, List.forall_mem_cons] at h
    exact .mk (Stmt.like_mapTokensAll items h.2.1)

theorem Stmt.like_mapTokensAll : ∀ items : List Stmt,
    (∀ entry ∈ Stmt.markedOf items, Token.Kept f entry) →
      ItemsLike AnyFault items (Stmt.mapTokensAll f items)
  | [], _ => .nil
  | item :: rest, h => by
    rw [Stmt.markedOf, List.forall_mem_append] at h
    exact .cons (Stmt.like_mapTokens item h.1) (Stmt.like_mapTokensAll rest h.2)

theorem Stmt.like_mapTokens : ∀ s : Stmt, (∀ entry ∈ s.marked, Token.Kept f entry) →
    s.Like AnyFault (s.mapTokens f)
  | .block body, h => .block (Block.like_mapTokens body h)
  | .ifThen _ condition yes, h => by
    simp only [Stmt.marked, List.forall_mem_append, List.forall_mem_cons] at h
    exact .ifThen (Expr.like_mapTokens h.2.1) (Block.like_mapTokens yes h.2.2)
  | .ifElse _ condition yes no, h => by
    simp only [Stmt.marked, List.forall_mem_append, List.forall_mem_cons] at h
    exact .ifElse (Expr.like_mapTokens h.2.1) (Block.like_mapTokens yes h.2.2.1)
      (Block.like_mapTokens no h.2.2.2)
  | .ret _ value, h => by
    simp only [Stmt.marked, List.forall_mem_cons] at h
    exact .ret (sameAt_anyFault _ _) (Expr.like_mapTokens h.2)
  | .directive name bang args, h => by
    rw [Stmt.marked, Token.forall_kept_unmarked, List.forall_mem_cons, List.forall_mem_cons] at h
    refine .directive (Token.Kept.like h.1) ?_
    exact List.forall₂_map_right_iff.mpr
      (List.forall₂_same.mpr fun t ht => Token.Kept.like (h.2.2 t ht))

end

section Types

open TypeExpr

variable {width : Nat}

theorem TypeExpr.isVoid_mapTokens {type : TypeExpr} (h : ∀ t ∈ type.tokens, (f t).text = t.text) :
    (type.mapTokens f).isVoid = type.isVoid := by
  cases type with
  | named name =>
      rw [mapTokens, isVoid, isVoid, h name (List.mem_singleton_self _)]
  | pointer _ _ => rfl
  | function _ ret _ _ => cases ret <;> rfl

mutual

theorem TypeExpr.sameResult_mapTokens : ∀ type : TypeExpr,
    (∀ t ∈ type.tokens, (f t).text = t.text) →
      SameResult AnyFault (type.lower width) ((type.mapTokens f).lower width)
  | .named name, h => by
    have hname := h name (List.mem_singleton_self _)
    rw [mapTokens, TypeExpr.lower, TypeExpr.lower, lowerNamed, lowerNamed, hname]
    split
    · exact .go _
    split
    · exact .go _
    split
    · exact .go _
    split <;> exact .stop (.fault trivial)
  | .pointer inner star, h => by
    rw [tokens_pointer, List.forall_mem_append] at h
    rw [mapTokens, TypeExpr.lower, TypeExpr.lower, isVoid_mapTokens h.1]
    split
    · exact .go _
    · exact (TypeExpr.sameResult_mapTokens inner h.1).map _
  | .function args none left right, h => by
    rw [tokens_function, List.forall_mem_cons, List.forall_mem_append] at h
    rw [mapTokens, TypeExpr.lower, TypeExpr.lower]
    exact (TypeExpr.sameResult_mapTokensAll args h.2.1).bind fun _ => .go _
  | .function args (some ret) left right, h => by
    rw [tokens_function, List.forall_mem_cons, List.forall_mem_append, List.forall_mem_cons] at h
    rw [mapTokens, TypeExpr.lower, TypeExpr.lower, isVoid_mapTokens h.2.2.2]
    have hargs : ∀ ret : Ir.Ty, SameResult AnyFault
        (lowerAll width args >>= fun types => .ok (Ir.Ty.pointer (.function ret types)))
        (lowerAll width (mapTokensAll f args) >>= fun types =>
          .ok (Ir.Ty.pointer (.function ret types))) :=
      fun ret => (TypeExpr.sameResult_mapTokensAll args h.2.1).bind fun _ => .go _
    split
    · exact (SameResult.go _).bind hargs
    · exact (TypeExpr.sameResult_mapTokens ret h.2.2.2).bind hargs

theorem TypeExpr.sameResult_mapTokensAll : ∀ types : List TypeExpr,
    (∀ t ∈ types.flatMap TypeExpr.tokens, (f t).text = t.text) →
      SameResult AnyFault (lowerAll width types) (lowerAll width (mapTokensAll f types))
  | [], _ => .go []
  | type :: rest, h => by
    rw [List.flatMap_cons, List.forall_mem_append] at h
    rw [mapTokensAll, lowerAll, lowerAll]
    exact (TypeExpr.sameResult_mapTokens type h.1).bind fun _ =>
      (TypeExpr.sameResult_mapTokensAll rest h.2).bind fun _ => .go _

end

theorem TypeExpr.sameResult_lowerReturn {ret : Option TypeExpr}
    (h : ∀ t ∈ ret.elim [] TypeExpr.tokens, (f t).text = t.text) :
    SameResult AnyFault (lowerReturn width ret) (lowerReturn width (ret.map (·.mapTokens f))) := by
  cases ret with
  | none => exact .go _
  | some ret =>
      rw [Option.map_some, lowerReturn, lowerReturn, isVoid_mapTokens h]
      split
      · exact .go _
      · exact TypeExpr.sameResult_mapTokens ret h

theorem Signature.sameResult_mapTokens {s : Signature} (h : ∀ t ∈ s.tokens, (f t).text = t.text) :
    SameResult AnyFault (s.lower width) ((s.mapTokens f).lower width) := by
  obtain ⟨args, ret, left, right⟩ := s
  change ∀ t ∈ (TypeExpr.function args ret left right).tokens, _ at h
  rw [tokens_function, List.forall_mem_cons, List.forall_mem_append, List.forall_mem_cons] at h
  rw [Signature.mapTokens, lower, lower, ← mapTokensAll_eq_map]
  exact (sameResult_lowerReturn h.2.2.2).bind fun _ =>
    (TypeExpr.sameResult_mapTokensAll args h.2.1).bind fun _ => .go _

end Types

/-- Tokens may move, and numbers may be written in another way. -/
theorem Program.like_mapTokens {p : Program} (h : ∀ entry ∈ p.marked, Token.Kept f entry) :
    p.Like AnyFault ⟨p.declarations.map (·.mapTokens f)⟩ := by
  refine List.forall₂_map_right_iff.mpr (List.forall₂_same.mpr fun d hd => ?_)
  have hd : ∀ entry ∈ d.marked, Token.Kept f entry :=
    fun entry hentry => h entry (List.mem_flatMap.mpr ⟨d, hd, hentry⟩)
  rw [FunctionDecl.marked, List.forall_mem_cons, List.forall_mem_append,
    Token.forall_kept_unmarked] at hd
  exact ⟨Token.Kept.like hd.1, fun _ => Signature.sameResult_mapTokens hd.2.1,
    Block.like_mapTokens d.body hd.2.2⟩

end KestrelCompiler
