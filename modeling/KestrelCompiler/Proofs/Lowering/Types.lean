import KestrelCompiler.Lowering
import KestrelCompiler.Proofs.Ir.WellFormed

/-!
Types that are lowered. `void` is left in place nowhere but as what a function gives back, and what
stands for itself is a number or a pointer.
-/

namespace KestrelCompiler

open Ir (Ty)

theorem exists_of_bind_eq_ok {ε α β : Type} {x : Except ε α} {f : α → Except ε β} {b : β}
    (h : (x >>= f) = .ok b) : ∃ a, x = .ok a ∧ f a = .ok b := by
  cases x with
  | ok a => exact ⟨a, rfl, h⟩
  | error e => cases h

namespace TypeExpr

variable {width : Nat}

/-- Three names stand for types. -/
theorem eq_of_lowerNamed {name : Token} {type : Ty} (h : lowerNamed width name = .ok type) :
    type = .int width ∨ type = .bit ∨ type = .byte := by
  unfold lowerNamed at h
  split at h
  · cases h
    exact .inl rfl
  split at h
  · cases h
    exact .inr (.inl rfl)
  split at h
  · cases h
    exact .inr (.inr rfl)
  split at h <;> cases h

theorem isValue_of_lowerNamed (hwidth : 0 < width) {name : Token} {type : Ty}
    (h : lowerNamed width name = .ok type) : type.IsValue := by
  obtain rfl | rfl | rfl := eq_of_lowerNamed h
  · exact ⟨hwidth, trivial⟩
  · exact ⟨Ty.proper_bit, trivial⟩
  · exact ⟨Ty.proper_byte, trivial⟩

theorem exists_of_lower_pointer {inner : TypeExpr} {star : Token} {type : Ty}
    (h : (pointer inner star).lower width = .ok type) :
    ∃ target, type = .pointer target ∧ (target = .byte ∨ inner.lower width = .ok target) := by
  unfold lower at h
  split at h
  · cases h
    exact ⟨_, rfl, .inl rfl⟩
  · cases hinner : inner.lower width with
    | error e =>
        rw [hinner] at h
        cases h
    | ok target =>
        rw [hinner] at h
        cases h
        exact ⟨target, rfl, .inr rfl⟩

theorem exists_of_lower_function {args : List TypeExpr} {ret : Option TypeExpr}
    {left right : Token} {type : Ty} (h : (function args ret left right).lower width = .ok type) :
    ∃ result types, type = .pointer (.function result types) ∧
      lowerReturn width ret = .ok result ∧ lowerAll width args = .ok types := by
  cases ret with
  | none =>
      unfold lower at h
      obtain ⟨types, hargs, h⟩ := exists_of_bind_eq_ok h
      cases h
      exact ⟨_, types, rfl, rfl, hargs⟩
  | some ret =>
      unfold lower at h
      split at h
      · next hvoid =>
          obtain ⟨result, hret, h⟩ := exists_of_bind_eq_ok h
          obtain ⟨types, hargs, h⟩ := exists_of_bind_eq_ok h
          cases hret
          cases h
          exact ⟨_, types, rfl, if_pos hvoid, hargs⟩
      · next hvoid =>
          obtain ⟨result, hret, h⟩ := exists_of_bind_eq_ok h
          obtain ⟨types, hargs, h⟩ := exists_of_bind_eq_ok h
          cases h
          exact ⟨result, types, rfl, (if_neg hvoid).trans hret, hargs⟩

mutual

theorem isValue_of_lower (hwidth : 0 < width) {type : Ty} : ∀ t : TypeExpr,
    t.lower width = .ok type → type.IsValue
  | named _, h => isValue_of_lowerNamed hwidth h
  | pointer inner _, h => by
    obtain ⟨target, rfl, rfl | hinner⟩ := exists_of_lower_pointer h
    · exact ⟨Ty.proper_byte, trivial⟩
    · exact ⟨(isValue_of_lower hwidth inner hinner).1, trivial⟩
  | function args none _ _, h => by
    obtain ⟨_, types, rfl, hret, hargs⟩ := exists_of_lower_function h
    cases hret
    exact ⟨⟨.inl rfl, (isValue_of_lowerAll hwidth args hargs).1⟩, trivial⟩
  | function args (some ret) _ _, h => by
    obtain ⟨result, types, rfl, hret, hargs⟩ := exists_of_lower_function h
    refine ⟨⟨?_, (isValue_of_lowerAll hwidth args hargs).1⟩, trivial⟩
    rw [lowerReturn] at hret
    split at hret
    · cases hret
      exact .inl rfl
    · exact .inr (isValue_of_lower hwidth ret hret).1

theorem isValue_of_lowerAll (hwidth : 0 < width) {types : List Ty} : ∀ ts : List TypeExpr,
    lowerAll width ts = .ok types → Ty.AllProper types ∧ ∀ type ∈ types, type.IsValue
  | [], h => by
    cases h
    exact ⟨trivial, fun _ hmem => nomatch hmem⟩
  | t :: rest, h => by
    unfold lowerAll at h
    obtain ⟨type, ht, h⟩ := exists_of_bind_eq_ok h
    obtain ⟨others, hrest, h⟩ := exists_of_bind_eq_ok h
    cases h
    have hvalue := isValue_of_lower hwidth t ht
    have hvalues := isValue_of_lowerAll hwidth rest hrest
    exact ⟨⟨hvalue.1, hvalues.1⟩, List.forall_mem_cons.mpr ⟨hvalue, hvalues.2⟩⟩

end

theorem isResult_of_lowerReturn (hwidth : 0 < width) {ret : Option TypeExpr} {type : Ty}
    (h : lowerReturn width ret = .ok type) : type.IsResult := by
  unfold lowerReturn at h
  split at h
  · cases h
    exact .inl rfl
  split at h
  · cases h
    exact .inl rfl
  · exact .inr (isValue_of_lower hwidth _ h)

end TypeExpr

theorem Signature.isValue_of_lower {width : Nat} (hwidth : 0 < width) {s : Signature} {ret : Ty}
    {args : List Ty} (h : s.lower width = .ok (ret, args)) :
    ret.IsResult ∧ ∀ type ∈ args, type.IsValue := by
  unfold Signature.lower at h
  obtain ⟨result, hret, h⟩ := exists_of_bind_eq_ok h
  obtain ⟨types, hargs, h⟩ := exists_of_bind_eq_ok h
  cases h
  exact ⟨TypeExpr.isResult_of_lowerReturn hwidth hret,
    (TypeExpr.isValue_of_lowerAll hwidth _ hargs).2⟩

end KestrelCompiler
