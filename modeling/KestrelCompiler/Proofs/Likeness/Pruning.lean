import KestrelCompiler.Proofs.Likeness.Emission

/-!
Dead code. Without the statements that stand behind a closing one, a program is emitted in exactly
the same way, with the same fault if there is one.
-/

namespace KestrelCompiler

mutual

/-- Drops what stands behind the first closing statement, in each block at each depth. -/
def Block.prune : Block → Block
  | .mk left items right => .mk left (pruneItems items) right

def pruneItems : List Stmt → List Stmt
  | [] => []
  | item :: rest => if item.prune.closes then [item.prune] else item.prune :: pruneItems rest

def Stmt.prune : Stmt → Stmt
  | .block body => .block body.prune
  | .ifThen keyword condition yes => .ifThen keyword condition yes.prune
  | .ifElse keyword condition yes no => .ifElse keyword condition yes.prune no.prune
  | .ret marker value => .ret marker value
  | .directive name bang args => .directive name bang args

end

def Program.prune (p : Program) : Program where
  declarations := p.declarations.map fun d => { d with body := d.body.prune }

mutual

@[simp] theorem Block.closes_prune : ∀ block : Block, block.prune.closes = block.closes
  | .mk _ items _ => itemsClose_pruneItems items

@[simp] theorem itemsClose_pruneItems :
    ∀ items : List Stmt, itemsClose (pruneItems items) = itemsClose items
  | [] => rfl
  | item :: rest => by
    rw [pruneItems, Stmt.closes_prune item]
    split
    · next hcloses => simp [itemsClose, Stmt.closes_prune item, hcloses]
    · rw [itemsClose, itemsClose, Stmt.closes_prune item, itemsClose_pruneItems rest]

/-- What is dropped does not tell whether a statement closes. -/
@[simp] theorem Stmt.closes_prune : ∀ stmt : Stmt, stmt.prune.closes = stmt.closes
  | .block body => Block.closes_prune body
  | .ifThen _ _ _ | .ifElse _ _ _ _ | .ret _ _ | .directive _ _ _ => rfl

end

mutual

theorem Block.like_prune : ∀ block : Block, block.Like Eq block.prune
  | .mk _ items _ => .mk (itemsLike_pruneItems items)

theorem itemsLike_pruneItems : ∀ items : List Stmt, ItemsLike Eq items (pruneItems items)
  | [] => .nil
  | item :: rest => by
    rw [pruneItems, Stmt.closes_prune]
    split
    · next hcloses => exact .closed (Stmt.like_prune item) hcloses
    · exact .cons (Stmt.like_prune item) (itemsLike_pruneItems rest)

theorem Stmt.like_prune : ∀ stmt : Stmt, stmt.Like Eq stmt.prune
  | .block body => .block (Block.like_prune body)
  | .ifThen _ condition yes => .ifThen (.refl Eq.refl condition) (Block.like_prune yes)
  | .ifElse _ condition yes no =>
    .ifElse (.refl Eq.refl condition) (Block.like_prune yes) (Block.like_prune no)
  | .ret _ value => .ret (fun _ => rfl) (.refl Eq.refl value)
  | .directive name _ _ =>
    .directive (.refl Eq.refl name) (List.forall₂_same.mpr fun arg _ => .refl Eq.refl arg)

end

theorem Program.like_prune (p : Program) : p.Like Eq p.prune := by
  refine List.forall₂_map_right_iff.mpr (List.forall₂_same.mpr fun d _ => ?_)
  exact ⟨.refl Eq.refl d.name, fun width => .refl Eq.refl _, d.body.like_prune⟩

/-- Dead statements have no effect: what is emitted without them, or the fault that stops the
emission, is the same, and so is the module that is left. -/
theorem emit_prune (p : Program) (width : Nat) (name triple : String) :
    (Emitter.new p.prune width name triple).emit.1 = (Emitter.new p width name triple).emit.1 ∧
    (Emitter.new p.prune width name triple).emit.2.module =
      (Emitter.new p width name triple).emit.2.module := by
  obtain ⟨hresult, hsame⟩ := p.like_prune.emit width name triple
  exact ⟨hresult.eq, hsame.module⟩

end KestrelCompiler
