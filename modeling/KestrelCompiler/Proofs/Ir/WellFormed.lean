import KestrelCompiler.Ir.Printer

/-!
Well-formed modules. A block is a list of instructions with at most one exit behind them, so a block
with an exit has exactly one terminator, and none before its end.
-/

namespace KestrelCompiler.Ir

namespace Ty

mutual

/-- Nothing is without a value, save what functions give back, and every number has a digit. -/
def Proper : Ty → Prop
  | int width => 0 < width
  | void => False
  | pointer target => target.Proper
  | function ret args => (ret = .void ∨ ret.Proper) ∧ AllProper args

def AllProper : List Ty → Prop
  | [] => True
  | type :: rest => type.Proper ∧ AllProper rest

end

/-- Numbers and pointers. -/
def IsScalar : Ty → Prop
  | int _ | pointer _ => True
  | void | function _ _ => False

/-- The types of parameters and results. -/
def IsValue (type : Ty) : Prop :=
  type.Proper ∧ type.IsScalar

/-- The types that a function may give back. -/
def IsResult (ret : Ty) : Prop :=
  ret = .void ∨ ret.IsValue

theorem proper_byte : byte.Proper :=
  Nat.succ_pos 7

theorem proper_bit : bit.Proper :=
  Nat.succ_pos 0

end Ty

section Operands

variable (parameters : List Ty) (strings : List StringConstant)

/-- An operand is a constant, a parameter or the result of an earlier instruction of its block, and
it has the type that it is used at. -/
def Value.Fits (earlier : List Instruction) (v : Value) : Prop :=
  match v.operand with
  | .number _ => ∃ width, v.type = .int width
  | .null => ∃ target, v.type = .pointer target
  | .parameter position => parameters[position]? = some v.type
  | .result number => ∃ i ∈ earlier, i.number = number ∧ i.operation.type = v.type

/-- The operands fit, and their types are those that the operation asks for. -/
def Operation.Fits (earlier : List Instruction) : Operation → Prop
  | add left right | sub left right | less left right =>
    left.Fits parameters earlier ∧ right.Fits parameters earlier ∧ left.type = right.type ∧
      ∃ width, left.type = .int width
  | nonzero value => value.Fits parameters earlier ∧ value.type.IsScalar
  | truncate value type =>
    value.Fits parameters earlier ∧ ∃ m n, value.type = .int m ∧ type = .int n ∧ n < m
  | extendSign value type | extendZero value type =>
    value.Fits parameters earlier ∧ ∃ m n, value.type = .int m ∧ type = .int n ∧ m < n
  | cast value type =>
    value.Fits parameters earlier ∧ ∃ a b, value.type = .pointer a ∧ type = .pointer b
  | stringAddress index size => ∃ s, strings[index]? = some s ∧ s.size = size

/-- Each instruction sees those before it. -/
def CodeFits (earlier : List Instruction) : List Instruction → Prop
  | [] => True
  | i :: rest => i.operation.Fits parameters strings earlier ∧ CodeFits (earlier ++ [i]) rest

/-- Branches lead to blocks of the function, but never to its first one. -/
def Exit.Fits (result : Ty) (blocks : Nat) (code : List Instruction) : Exit → Prop
  | branch condition yes no => condition.Fits parameters code ∧ condition.type = .bit ∧
    (0 < yes ∧ yes < blocks) ∧ 0 < no ∧ no < blocks
  | jump target => 0 < target ∧ target < blocks
  | ret value => value.Fits parameters code ∧ value.type = result
  | retVoid => result = .void

end Operands

/-- The results of a function in writing. -/
def Function.resultNames (f : Function) : List String :=
  f.blocks.flatMap fun b => b.instructions.map fun i => resultName i.number

structure Function.WellFormed (strings : List StringConstant) (f : Function) : Prop where
  entry : f.blocks.head?.map (·.label) = some "entry"
  code : ∀ b ∈ f.blocks, CodeFits (f.parameters.map (·.type)) strings [] b.instructions
  exits : ∀ b ∈ f.blocks, ∃ exit, b.exit = some exit ∧
    exit.Fits (f.parameters.map (·.type)) f.ret f.blocks.length b.instructions
  names : (f.parameters.map (·.name) ++ f.blocks.map (·.label) ++ f.resultNames).Nodup
  ret : f.ret.IsResult
  parameters : ∀ p ∈ f.parameters, p.type.IsValue
  types : ∀ b ∈ f.blocks, ∀ type ∈ b.types, type.Proper

/-- The names of functions and string constants. -/
def Module.globalNames (m : Module) : List String :=
  m.functions.map (·.name) ++ (List.range m.strings.length).map stringName

structure Module.WellFormed (m : Module) : Prop where
  names : m.globalNames.Nodup
  functions : ∀ f ∈ m.functions, f.WellFormed m.strings

section Monotone

variable {parameters : List Ty} {strings strings' : List StringConstant}

theorem Value.Fits.append {earlier : List Instruction} {v : Value} (h : v.Fits parameters earlier)
    (later : List Instruction) : v.Fits parameters (earlier ++ later) := by
  rw [Value.Fits] at h ⊢
  split
  · next heq => simpa only [heq] using h
  · next heq => simpa only [heq] using h
  · next heq => simpa only [heq] using h
  · next heq =>
      simp only [heq] at h
      obtain ⟨i, hi, hfits⟩ := h
      exact ⟨i, List.mem_append_left later hi, hfits⟩

theorem Value.fits_result {earlier : List Instruction} {number : Nat} {operation : Operation} :
    Value.Fits parameters (earlier ++ [⟨number, operation⟩])
      ⟨operation.type, .result number⟩ :=
  ⟨_, List.mem_append_right earlier List.mem_cons_self, rfl, rfl⟩

theorem Operation.Fits.strings_mono {earlier : List Instruction} {operation : Operation}
    (h : operation.Fits parameters strings earlier) (more : List StringConstant) :
    operation.Fits parameters (strings ++ more) earlier := by
  cases operation with
  | stringAddress index size =>
      obtain ⟨s, hs, hsize⟩ := h
      have hlt := (List.getElem?_eq_some_iff.mp hs).1
      exact ⟨s, by rw [List.getElem?_append_left hlt, hs], hsize⟩
  | _ => exact h

theorem CodeFits.strings_mono {earlier code : List Instruction}
    (h : CodeFits parameters strings earlier code) (more : List StringConstant) :
    CodeFits parameters (strings ++ more) earlier code := by
  induction code generalizing earlier with
  | nil => trivial
  | cons i rest ih => exact ⟨h.1.strings_mono more, ih h.2⟩

theorem CodeFits.append {earlier code more : List Instruction}
    (h : CodeFits parameters strings earlier code)
    (hmore : CodeFits parameters strings (earlier ++ code) more) :
    CodeFits parameters strings earlier (code ++ more) := by
  induction code generalizing earlier with
  | nil => simpa using hmore
  | cons i rest ih => exact ⟨h.1, ih h.2 (by simpa using hmore)⟩

theorem Exit.Fits.mono {result : Ty} {blocks blocks' : Nat} {code : List Instruction} {exit : Exit}
    (h : exit.Fits parameters result blocks code) (hle : blocks ≤ blocks') :
    exit.Fits parameters result blocks' code := by
  cases exit with
  | branch condition yes no =>
      obtain ⟨hfits, htype, hyes, hno⟩ := h
      exact ⟨hfits, htype, ⟨hyes.1, by omega⟩, hno.1, by omega⟩
  | jump target => exact ⟨h.1, by have := h.2; omega⟩
  | ret value => exact h
  | retVoid => exact h

end Monotone

end KestrelCompiler.Ir
