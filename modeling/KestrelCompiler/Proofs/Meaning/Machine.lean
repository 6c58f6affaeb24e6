import KestrelCompiler.Proofs.Meaning.Word

/-!
Execution of blocks. A step runs one instruction or leaves the block by its exit; where an operand
has no value, or not one of the kind that is asked for, there is no step.
-/

namespace KestrelCompiler.Ir

/-- The kind of the values of a type, if it has any. -/
def Ty.kind? : Ty → Option Kind
  | int width => some (.int width)
  | pointer _ => some .address
  | void | function _ _ => none

/-- The results of the instructions that were run, by their numbers. -/
abbrev Results := Nat → Option Word

def Results.set (results : Results) (number : Nat) (w : Word) : Results :=
  fun n => if n = number then some w else results n

section Evaluation

variable (args : List Word) (results : Results)

/-- A constant is brought into the range of its type. -/
def Value.eval (v : Value) : Option Word :=
  match v.operand, v.type with
  | .number value, .int width => some (.int (BitVec.ofInt width value))
  | .null, .pointer _ => some (.address .null)
  | .parameter position, _ => args[position]?
  | .result number, _ => results number
  | _, _ => none

/-- What is computed from two numbers of one width. -/
def onBits (f : {n : Nat} → BitVec n → BitVec n → Word) : Word → Word → Option Word
  | @Word.int m a, @Word.int n b => if m = n then some (f a (b.setWidth m)) else none
  | _, _ => none

/-- A number at the width of a type, where the old and the new width are as they should be. -/
def resize (fits : Nat → Nat → Bool) (f : {m : Nat} → (n : Nat) → BitVec m → BitVec n) :
    Word → Ty → Option Word
  | @Word.int m bits, .int n => if fits m n then some (.int (f n bits)) else none
  | _, _ => none

def Operation.eval : Operation → Option Word
  | add left right => do
    onBits (fun a b => .int (a + b)) (← left.eval args results) (← right.eval args results)
  | sub left right => do
    onBits (fun a b => .int (a - b)) (← left.eval args results) (← right.eval args results)
  | less left right => do
    onBits (fun a b => .bit (a.slt b)) (← left.eval args results) (← right.eval args results)
  | nonzero value => do some (.bit (← value.eval args results).isTrue)
  | truncate value type => do
    resize (fun m n => n < m) BitVec.setWidth (← value.eval args results) type
  | extendSign value type => do
    resize (fun m n => m < n) BitVec.signExtend (← value.eval args results) type
  | extendZero value type => do
    resize (fun m n => m < n) BitVec.setWidth (← value.eval args results) type
  | cast value _ => value.eval args results
  | stringAddress index _ => some (.address (.string index))

end Evaluation

/-- A point of the execution, or its end. -/
inductive State where
  | running (block index : Nat) (results : Results)
  | returned (result : Option Word)

section Execution

variable (blocks : List Block) (args : List Word)

def Exit.step (results : Results) : Exit → Option State
  | branch condition yes no => do
    let w ← condition.eval args results
    if w.kind = .int 1 then some (.running (if w.isTrue then yes else no) 0 results) else none
  | jump target => some (.running target 0 results)
  | ret value => do some (.returned (some (← value.eval args results)))
  | retVoid => some (.returned none)

def step : State → Option State
  | .returned _ => none
  | .running block index results => do
    let b ← blocks[block]?
    match b.instructions[index]? with
    | some i =>
      let w ← i.operation.eval args results
      some (.running block (index + 1) (results.set i.number w))
    | none => (← b.exit).step args results

/-- Finitely many steps. -/
inductive Steps : State → State → Prop
  | refl {s : State} : Steps s s
  | step {s s' t : State} : step blocks args s = some s' → Steps s' t → Steps s t

/-- Executes a list of instructions, one after the other. -/
def execute : Results → List Instruction → Option Results
  | results, [] => some results
  | results, i :: rest => do
    let w ← i.operation.eval args results
    execute (results.set i.number w) rest

end Execution

/-- The function is entered at its first block and returns in finitely many steps. -/
def Function.Returns (f : Function) (args : List Word) (result : Option Word) : Prop :=
  Steps f.blocks args (.running 0 0 fun _ => none) (.returned result)

variable {blocks : List Block} {args : List Word}

theorem Steps.trans {s t u : State} (h : Steps blocks args s t) (h' : Steps blocks args t u) :
    Steps blocks args s u := by
  induction h with
  | refl => exact h'
  | step hstep _ ih => exact .step hstep (ih h')

theorem Steps.single {s t : State} (h : Ir.step blocks args s = some t) : Steps blocks args s t :=
  .step h .refl

/-- Executions do not choose, so that no function returns two results. -/
theorem Steps.returned_unique {s t : State} {result result' : Option Word}
    (h : Steps blocks args s t) (ht : t = .returned result)
    (h' : Steps blocks args s (.returned result')) : result = result' := by
  induction h with
  | refl =>
      subst ht
      cases h' with
      | refl => rfl
      | step hstep _ => cases hstep
  | step hstep _ ih =>
      cases h' with
      | refl => cases hstep
      | step hstep' hrest =>
          obtain rfl := Option.some.inj (hstep.symm.trans hstep')
          exact ih ht hrest

theorem Function.Returns.unique {f : Function} {result result' : Option Word}
    (h : f.Returns args result) (h' : f.Returns args result') : result = result' :=
  Steps.returned_unique h rfl h'

theorem Function.Returns.iff_eq {f : Function} {result : Option Word} (h : f.Returns args result)
    (other : Option Word) : f.Returns args other ↔ other = result := by
  constructor
  · intro h'
    exact h'.unique h
  · rintro rfl
    exact h

theorem execute_append {results results' : Results} {code more : List Instruction}
    (h : execute args results code = some results') :
    execute args results (code ++ more) = execute args results' more := by
  induction code generalizing results with
  | nil =>
      cases h
      rfl
  | cons i rest ih =>
      obtain ⟨w, hw, h⟩ := Option.bind_eq_some_iff.mp h
      rw [List.cons_append, execute, hw]
      exact ih h

/-- Code somewhere in a block is executed step by step. -/
theorem steps_code {block : Nat} {b : Block} {before code after : List Instruction}
    {results results' : Results} (hb : blocks[block]? = some b)
    (hcode : b.instructions = before ++ (code ++ after))
    (h : execute args results code = some results') :
    Steps blocks args (.running block before.length results)
      (.running block (before ++ code).length results') := by
  induction code generalizing before results with
  | nil =>
      cases h
      rw [List.append_nil]
      exact .refl
  | cons i rest ih =>
      obtain ⟨w, hw, h⟩ := Option.bind_eq_some_iff.mp h
      have hi : b.instructions[before.length]? = some i := by
        rw [hcode, List.getElem?_append_right (Nat.le_refl _), Nat.sub_self]
        rfl
      have hstep : Ir.step blocks args (.running block before.length results) =
          some (.running block (before.length + 1) (results.set i.number w)) := by
        simp [Ir.step, hb, hi, hw]
      have hrest := @ih (before ++ [i]) (results.set i.number w) (by simpa using hcode) h
      rw [List.length_append, List.append_assoc] at hrest
      exact .step hstep hrest

theorem step_exit {block : Nat} {b : Block} {exit : Exit} {results : Results}
    (hb : blocks[block]? = some b) (hexit : b.exit = some exit) :
    Ir.step blocks args (.running block b.instructions.length results) =
      exit.step args results := by
  simp [Ir.step, hb, hexit]

theorem step_ret {v : Value} {results : Results} {w : Word} (h : v.eval args results = some w) :
    (Exit.ret v).step args results = some (.returned (some w)) := by
  rw [Exit.step, h]
  rfl

end KestrelCompiler.Ir
