import KestrelCompiler.Lowering
import KestrelCompiler.Proofs.Ir.WellFormed
import KestrelCompiler.Proofs.Step

/-!
The code of expressions. Lowering an expression appends instructions to the current block and
string constants to the module, and does nothing else; which ones is told here without the state
that they are kept in. Results are numbered on from the last number given out.
-/

namespace KestrelCompiler

open Ir (Ty Value Instruction StringConstant)

namespace Draft

/-- Appends code to the current block. -/
def append (d : Draft) (code : List Instruction) : Draft :=
  { d with
    count := d.count + code.length
    blocks := d.blocks.modify d.current fun b => { b with instructions := b.instructions ++ code } }

theorem append_nil (d : Draft) : d.append [] = d := by
  have hid : (fun b : Ir.Block => { b with instructions := b.instructions ++ [] }) = id := by
    funext b
    simp
  rw [append, hid, List.modify_id]
  rfl

theorem append_append (d : Draft) (code more : List Instruction) :
    (d.append code).append more = d.append (code ++ more) := by
  simp [append, List.modify_modify_eq, Function.comp_def, Nat.add_assoc]

end Draft

/-- Appends code and string constants. -/
def Build.emit (b : Build) (code : List Instruction) (texts : List StringConstant) : Build :=
  { b with draft := b.draft.append code, strings := b.strings ++ texts }

namespace Build

theorem emit_nil (b : Build) : b.emit [] [] = b := by
  simp [emit, Draft.append_nil]

theorem emit_emit (b : Build) (code more : List Instruction) (texts others : List StringConstant) :
    (b.emit code texts).emit more others = b.emit (code ++ more) (texts ++ others) := by
  simp [emit, Draft.append_append]

end Build

/-- The code that gives `v` the type `target`. -/
inductive Coerces (count : Nat) (v : Value) (target : Ty) : List Instruction → Value → Prop
  | same : v.type = target → Coerces count v target [] v
  | truncate {m n : Nat} : v.type = .int m → target = .int n → n < m →
    Coerces count v target [⟨count + 1, .truncate v target⟩] ⟨target, .result (count + 1)⟩
  | extendZero {n : Nat} : v.type = .int 1 → target = .int n → 1 < n →
    Coerces count v target [⟨count + 1, .extendZero v target⟩] ⟨target, .result (count + 1)⟩
  | extendSign {m n : Nat} : v.type = .int m → target = .int n → m < n → m ≠ 1 →
    Coerces count v target [⟨count + 1, .extendSign v target⟩] ⟨target, .result (count + 1)⟩
  | cast {a b : Ty} : v.type = .pointer a → target = .pointer b →
    Coerces count v target [⟨count + 1, .cast v target⟩] ⟨target, .result (count + 1)⟩

/-- The code that tells whether `v` counts as true. -/
inductive Tests (count : Nat) (v : Value) : List Instruction → Value → Prop
  | bit : v.type = .bit → Tests count v [] v
  | nonzero : v.type.IsScalar → Tests count v [⟨count + 1, .nonzero v⟩] ⟨.bit, .result (count + 1)⟩

def Operation.combine : Operation → Value → Value → Ir.Operation
  | .add => .add
  | .sub => .sub
  | .less => .less

theorem Operation.isBalanced_combine (operation : Operation) {l r : Value}
    (h : l.type = r.type) : (operation.combine l r).isBalanced = true := by
  cases operation with
  | add | sub => exact decide_eq_true h
  | less => rfl

/-- The code of an expression and the string constants in it, after `count` numbers and `strings`
constants. -/
inductive Compiles (width : Nat) (bindings : List (String × Value)) :
    Nat → Nat → Expr → List Instruction → List StringConstant → Value → Prop
  | number {count strings value : Nat} {token : Token} :
    numberValue? token.text.toList = some value →
    Compiles width bindings count strings (.number token) [] [] ⟨.int width, .number value⟩
  | string {count strings : Nat} {token : Token} :
    Compiles width bindings count strings (.string token)
      [⟨count + 1, .stringAddress strings (StringConstant.size ⟨token.text⟩)⟩] [⟨token.text⟩]
      ⟨.pointer .byte, .result (count + 1)⟩
  | name {count strings : Nat} {token : Token} {v : Value} :
    bindings.lookup token.text = some v →
    Compiles width bindings count strings (.name token) [] [] v
  | binary {count strings m n : Nat} {operation : Operation} {left right : Expr} {op : Token}
    {codeL codeR coerceL coerceR : List Instruction} {textsL textsR : List StringConstant}
    {l r l' r' : Value} :
    Compiles width bindings count strings left codeL textsL l →
    Compiles width bindings (count + codeL.length) (strings + textsL.length) right codeR textsR r →
    l.type = .int m → r.type = .int n →
    Coerces (count + (codeL ++ codeR).length) l (.int (max m n)) coerceL l' →
    Coerces (count + (codeL ++ codeR ++ coerceL).length) r (.int (max m n)) coerceR r' →
    Compiles width bindings count strings (.binary operation left op right)
      (codeL ++ codeR ++ coerceL ++ coerceR ++
        [⟨count + (codeL ++ codeR ++ coerceL ++ coerceR).length + 1, operation.combine l' r'⟩])
      (textsL ++ textsR)
      ⟨(operation.combine l' r').type,
        .result (count + (codeL ++ codeR ++ coerceL ++ coerceR).length + 1)⟩

namespace Lower

variable {b b' : Build}

section OpenBlock

variable {α : Type} {x : Lower α} {operation : Ir.Operation} {v : Value}

theorem onOpenBlock_of_open (hopen : b.draft.isClosed = false) : onOpenBlock x b = x b := by
  change (if b.draft.isClosed then refuse .closedBlock else x) b = x b
  rw [if_neg (Bool.eq_false_iff.mp hopen)]

theorem onOpenBlock_of_closed (hclosed : b.draft.isClosed = true) :
    onOpenBlock x b = (.error (.refused .closedBlock), b) := by
  change (if b.draft.isClosed then refuse .closedBlock else x) b = _
  rw [if_pos hclosed]
  rfl

theorem onOpenBlock_eq_ok {a : α} : onOpenBlock x b = (.ok a, b') ↔
    b.draft.isClosed = false ∧ x b = (.ok a, b') := by
  cases hclosed : b.draft.isClosed with
  | true =>
      rw [onOpenBlock_of_closed hclosed]
      simp
  | false =>
      rw [onOpenBlock_of_open hclosed]
      simp

/-- What the builder does with an instruction that it takes. -/
theorem push_of_open (hbalanced : operation.isBalanced = true)
    (hopen : b.draft.isClosed = false) :
    push operation b = (.ok ⟨operation.type, .result (b.draft.count + 1)⟩,
      b.emit [⟨b.draft.count + 1, operation⟩] []) := by
  rw [push, if_pos hbalanced, onOpenBlock_of_open hopen]
  simp [append, Draft.push, Build.emit, Draft.append]

theorem push_eq_ok (h : push operation b = (.ok v, b')) :
    v = ⟨operation.type, .result (b.draft.count + 1)⟩ ∧
      b' = b.emit [⟨b.draft.count + 1, operation⟩] [] := by
  by_cases hbalanced : operation.isBalanced = true
  · have hrun := h
    rw [push, if_pos hbalanced] at hrun
    rw [push_of_open hbalanced (onOpenBlock_eq_ok.mp hrun).1] at h
    cases h
    exact ⟨rfl, rfl⟩
  · rw [push, if_neg hbalanced] at h
    cases h

end OpenBlock

theorem coerce_of_eq {v : Value} {target : Ty} {l : Location} (h : v.type = target) :
    coerce v target l = pure v := by
  unfold coerce
  rw [if_pos h]

theorem coerces_of_coerce {v v' : Value} {target : Ty} {l : Location}
    (h : coerce v target l b = (.ok v', b')) :
    ∃ code, Coerces b.draft.count v target code v' ∧ b' = b.emit code [] := by
  by_cases hsame : v.type = target
  · rw [coerce_of_eq hsame] at h
    obtain ⟨rfl, rfl⟩ := Step.pure_eq_ok.mp h
    exact ⟨[], .same hsame, (Build.emit_nil _).symm⟩
  unfold coerce at h
  rw [if_neg hsame] at h
  cases htype : v.type with
  | int m =>
      cases target with
      | int n =>
          have hne : m ≠ n := by
            rintro rfl
            exact hsame htype
          simp only [htype] at h
          split at h
          · next hlt =>
              obtain ⟨rfl, rfl⟩ := push_eq_ok h
              exact ⟨_, .truncate htype rfl hlt, rfl⟩
          split at h
          · next hle hone =>
              subst hone
              obtain ⟨rfl, rfl⟩ := push_eq_ok h
              exact ⟨_, .extendZero htype rfl (by omega), rfl⟩
          · next hle hone =>
              obtain ⟨rfl, rfl⟩ := push_eq_ok h
              exact ⟨_, .extendSign htype rfl (by omega) hone, rfl⟩
      | void | pointer _ | function _ _ =>
          simp only [htype] at h
          cases h
  | pointer a =>
      cases target with
      | pointer b =>
          simp only [htype] at h
          obtain ⟨rfl, rfl⟩ := push_eq_ok h
          exact ⟨_, .cast htype rfl, rfl⟩
      | int _ | void | function _ _ =>
          simp only [htype] at h
          cases h
  | void | function _ _ =>
      simp only [htype] at h
      cases h

theorem tests_of_truth {v c : Value} {l : Location} (h : truth v l b = (.ok c, b')) :
    ∃ code, Tests b.draft.count v code c ∧ b' = b.emit code [] := by
  unfold truth at h
  cases htype : v.type with
  | int width =>
      simp only [htype] at h
      split at h
      · next hone =>
          obtain ⟨rfl, rfl⟩ := Step.pure_eq_ok.mp h
          exact ⟨[], .bit (by rw [htype, hone]; rfl), (Build.emit_nil _).symm⟩
      · obtain ⟨rfl, rfl⟩ := push_eq_ok h
        exact ⟨_, .nonzero (by rw [htype]; trivial), rfl⟩
  | pointer target =>
      simp only [htype] at h
      obtain ⟨rfl, rfl⟩ := push_eq_ok h
      exact ⟨_, .nonzero (by rw [htype]; trivial), rfl⟩
  | void | function _ _ =>
      simp only [htype] at h
      cases h

end Lower

namespace Expr

variable {b b' : Build}

theorem integerWidth_eq_ok {v : Value} {op : Token} {l : Location} {width : Nat}
    (h : integerWidth v op l b = (.ok width, b')) : v.type = .int width ∧ b = b' := by
  unfold integerWidth at h
  cases htype : v.type with
  | int m =>
      simp only [htype] at h
      obtain ⟨rfl, rfl⟩ := Step.pure_eq_ok.mp h
      exact ⟨rfl, rfl⟩
  | void | pointer _ | function _ _ =>
      simp only [htype] at h
      cases h

theorem compiles_of_lower {width : Nat} {e : Expr} {v : Value}
    (h : e.lower width b = (.ok v, b')) :
    ∃ code texts, Compiles width b.draft.bindings b.draft.count b.strings.length e code texts v ∧
      b' = b.emit code texts := by
  induction e generalizing b b' v with
  | number token =>
      unfold lower at h
      cases hvalue : numberValue? token.text.toList with
      | none =>
          simp only [hvalue] at h
          cases h
      | some value =>
          simp only [hvalue] at h
          obtain ⟨rfl, rfl⟩ := Step.pure_eq_ok.mp h
          exact ⟨[], [], .number hvalue, (Build.emit_nil _).symm⟩
  | string token =>
      obtain ⟨index, b₁, hindex, h⟩ := Step.bind_eq_ok.mp h
      cases hindex
      obtain ⟨rfl, rfl⟩ := Lower.push_eq_ok h
      exact ⟨_, _, .string, by simp [Build.emit]⟩
  | name token =>
      obtain ⟨d, b₁, hd, h⟩ := Step.bind_eq_ok.mp h
      cases hd
      cases hlookup : b.draft.bindings.lookup token.text with
      | none =>
          simp only [hlookup] at h
          cases h
      | some value =>
          simp only [hlookup] at h
          obtain ⟨rfl, rfl⟩ := Step.pure_eq_ok.mp h
          exact ⟨[], [], .name hlookup, (Build.emit_nil _).symm⟩
  | binary operation left op right ihl ihr =>
      obtain ⟨l, b₁, hrun, h⟩ := Step.bind_eq_ok.mp h
      obtain ⟨codeL, textsL, hl, rfl⟩ := ihl hrun
      obtain ⟨r, b₂, hrun, h⟩ := Step.bind_eq_ok.mp h
      obtain ⟨codeR, textsR, hr, rfl⟩ := ihr hrun
      rw [Build.emit_emit] at h
      obtain ⟨m, b₃, hrun, h⟩ := Step.bind_eq_ok.mp h
      obtain ⟨hm, rfl⟩ := integerWidth_eq_ok hrun
      obtain ⟨n, b₄, hrun, h⟩ := Step.bind_eq_ok.mp h
      obtain ⟨hn, rfl⟩ := integerWidth_eq_ok hrun
      obtain ⟨l', b₅, hrun, h⟩ := Step.bind_eq_ok.mp h
      obtain ⟨coerceL, hl', rfl⟩ := Lower.coerces_of_coerce hrun
      rw [Build.emit_emit] at h
      obtain ⟨r', b₆, hrun, h⟩ := Step.bind_eq_ok.mp h
      obtain ⟨coerceR, hr', rfl⟩ := Lower.coerces_of_coerce hrun
      rw [Build.emit_emit] at h
      simp only [List.append_nil] at h
      have hpush : Lower.push (operation.combine l' r')
          (b.emit (codeL ++ codeR ++ coerceL ++ coerceR) (textsL ++ textsR)) = (.ok v, b') := by
        cases operation <;> exact h
      obtain ⟨hv, hb⟩ := Lower.push_eq_ok hpush
      rw [Build.emit_emit, List.append_nil] at hb
      have hr : Compiles width b.draft.bindings (b.draft.count + codeL.length)
          (b.strings.length + textsL.length) right codeR textsR r := by
        rw [← List.length_append]
        exact hr
      exact ⟨_, _, hv ▸ .binary hl hr hm hn hl' hr', hb⟩

end Expr

end KestrelCompiler
