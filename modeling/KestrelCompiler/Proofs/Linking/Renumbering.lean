import KestrelCompiler.Ir.Printer

/-!
Code whose string constants are counted from another number on. Nothing else in it depends on how
many string constants there are in front of its own.
-/

namespace KestrelCompiler.Ir

/-- The operation where `k` string constants come before those that it was made with. -/
def Operation.renumber (k : Nat) : Operation → Operation
  | stringAddress index size => stringAddress (k + index) size
  | operation => operation

def Instruction.renumber (k : Nat) (i : Instruction) : Instruction :=
  { i with operation := i.operation.renumber k }

def Block.renumber (k : Nat) (b : Block) : Block :=
  { b with instructions := b.instructions.map (Instruction.renumber k) }

def Function.renumber (k : Nat) (f : Function) : Function :=
  { f with blocks := f.blocks.map (Block.renumber k) }

variable (k : Nat)

@[simp] theorem Operation.type_renumber (o : Operation) : (o.renumber k).type = o.type := by
  cases o <;> rfl

@[simp] theorem Operation.isBalanced_renumber (o : Operation) :
    (o.renumber k).isBalanced = o.isBalanced := by
  cases o <;> rfl

@[simp] theorem Operation.types_renumber (o : Operation) : (o.renumber k).types = o.types := by
  cases o <;> rfl

@[simp] theorem Block.types_renumber (b : Block) : (b.renumber k).types = b.types := by
  simp [renumber, types, Instruction.renumber, List.flatMap_map]

@[simp] theorem Function.types_renumber (f : Function) : (f.renumber k).types = f.types := by
  simp [renumber, types, List.flatMap_map]

@[simp] theorem Function.name_renumber (f : Function) : (f.renumber k).name = f.name := rfl

theorem Operation.renumber_zero (o : Operation) : o.renumber 0 = o := by
  cases o with
  | stringAddress index size => rw [renumber, Nat.zero_add]
  | _ => rfl

theorem Function.renumber_zero (f : Function) : f.renumber 0 = f := by
  have hinstruction : Instruction.renumber 0 = id := by
    funext i
    rw [Instruction.renumber, Operation.renumber_zero]
    rfl
  have hblock : Block.renumber 0 = id := by
    funext b
    rw [Block.renumber, hinstruction, List.map_id]
    rfl
  rw [renumber, hblock, List.map_id]

end KestrelCompiler.Ir
