import KestrelCompiler.Ir.Module
import KestrelCompiler.Program

/-!
Values at run time. A number has the bits of its width, and an address is known by what stands at
it: each string constant has its own, and none of them is null.
-/

namespace KestrelCompiler

inductive Address where
  | null
  | string (index : Nat)
  /-- An address from outside the module. -/
  | other (tag : Nat)
  deriving DecidableEq

/-- What the values of a type have in common. -/
inductive Kind where
  | int (width : Nat)
  | address
  deriving DecidableEq

inductive Word where
  | int {width : Nat} (bits : BitVec width)
  | address (a : Address)

namespace Word

def kind : Word → Kind
  | @int width _ => .int width
  | address _ => .address

def bit (b : Bool) : Word :=
  int (BitVec.ofBool b)

/-- Zero or null. -/
def zero : Kind → Word
  | .int width => int (BitVec.ofNat width 0)
  | .address => address .null

def isTrue : Word → Bool
  | int bits => bits != 0
  | address a => a != .null

/-- The same number at another width: one bit is zero or one, and everything else is signed. -/
def extend {m : Nat} (n : Nat) (bits : BitVec m) : BitVec n :=
  if m = 1 then bits.setWidth n else bits.signExtend n

/-- Numbers are cut or extended; addresses stay as they are. -/
def convert : Word → Kind → Option Word
  | @int m bits, .int n => some (int (if n < m then bits.setWidth n else extend n bits))
  | address a, .address => some (address a)
  | _, _ => none

theorem exists_bits {w : Word} {width : Nat} (h : w.kind = .int width) :
    ∃ bits : BitVec width, w = int bits := by
  cases w with
  | int bits =>
      cases h
      exact ⟨bits, rfl⟩
  | address a => cases h

theorem exists_address {w : Word} (h : w.kind = .address) : ∃ a, w = address a := by
  cases w with
  | int bits => cases h
  | address a => exact ⟨a, rfl⟩

@[simp] theorem extend_self {n : Nat} (bits : BitVec n) : extend n bits = bits := by
  rw [extend]
  split
  · exact BitVec.setWidth_eq bits
  · exact BitVec.signExtend_eq bits

theorem convert_self (w : Word) : w.convert w.kind = some w := by
  cases w with
  | int bits => simp [convert, kind]
  | address a => rfl

section Widths

variable {m n : Nat} (bits : BitVec m)

theorem convert_truncate (h : n < m) :
    (int bits).convert (.int n) = some (int (bits.setWidth n)) := by
  rw [convert, if_pos h]

theorem convert_extend (h : m ≤ n) : (int bits).convert (.int n) = some (int (extend n bits)) := by
  rw [convert, if_neg (Nat.not_lt.mpr h)]

theorem convert_zero (bits : BitVec 1) (h : 1 < n) :
    (int bits).convert (.int n) = some (int (bits.setWidth n)) :=
  convert_extend bits (Nat.le_of_lt h)

theorem convert_sign (h : m < n) (hone : m ≠ 1) :
    (int bits).convert (.int n) = some (int (bits.signExtend n)) := by
  rw [convert_extend bits (Nat.le_of_lt h), extend, if_neg hone]

end Widths

@[simp] theorem isTrue_bit (b : Bool) : (bit b).isTrue = b := by
  cases b <;> rfl

end Word

namespace Operation

/-- What an operation makes of two numbers of one width, which it takes as signed. -/
def compute {n : Nat} (a b : BitVec n) : Operation → Word
  | add => .int (a + b)
  | sub => .int (a - b)
  | less => .bit (a.slt b)

/-- Both numbers are brought to the greater width. -/
def apply (operation : Operation) : Word → Word → Option Word
  | @Word.int m a, @Word.int n b =>
    some (operation.compute (Word.extend (max m n) a) (Word.extend (max m n) b))
  | _, _ => none

end Operation

end KestrelCompiler
