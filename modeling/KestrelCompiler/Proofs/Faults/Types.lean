import KestrelCompiler.Proofs.Faults.Judgement
import KestrelCompiler.Proofs.Lowering.Types

/-!
Faults of types. Lowering a type stops exactly where there is a fault in it, with one of its faults.
A type that is lowered becomes an address where its tree says so, and a number otherwise; its widths
can be written where that of `int` can.
-/

namespace KestrelCompiler

open Ir (Ty)

/-- What is computed stops with one of the faults, only where there is one, and never because the
builder refuses something. Where `written` holds the fault can be written. -/
def Decides {α : Type} (written : Prop) (r : Except LoweringStop α)
    (faults : LoweringFault → Prop) : Prop :=
  match r with
  | .ok _ => ∀ f, ¬ faults f
  | .error (.fault f) => faults f ∧ (written → f.error.isWritable = true)
  | .error (.refused _) => False

namespace Decides

variable {α β : Type} {written : Prop} {r : Except LoweringStop α}
  {faults more others : LoweringFault → Prop}

theorem exists_fault {stop : LoweringStop} (h : Decides written (.error stop : Except _ α) faults) :
    ∃ f : LoweringFault, stop = f ∧ faults f ∧ (written → f.error.isWritable = true) := by
  cases stop with
  | fault f => exact ⟨f, rfl, h⟩
  | refused r => exact h.elim

/-- What has stopped has stopped for whatever comes after. -/
theorem stop {stop : LoweringStop} (h : Decides written (.error stop : Except _ α) faults)
    (hmore : ∀ f, faults f → more f) : Decides written (.error stop : Except _ β) more := by
  obtain ⟨f, rfl, hf, hwritten⟩ := h.exists_fault
  exact ⟨hmore f hf, hwritten⟩

theorem congr (h : Decides written r faults) (hsame : ∀ f, faults f ↔ others f) :
    Decides written r others := by
  have heq : faults = others := funext fun f => propext (hsame f)
  rwa [← heq]

theorem bind {next : α → Except LoweringStop β} (h : Decides written r faults)
    (hnext : ∀ a, r = .ok a → Decides written (next a) more) :
    Decides written (r >>= next) fun f => faults f ∨ more f := by
  cases r with
  | error stop => exact h.stop fun _ => .inl
  | ok a =>
      refine (hnext a rfl).congr fun f => ?_
      simp [h f]

/-- What comes after cannot stop. -/
theorem bind_ok {next : α → β} (h : Decides written r faults) :
    Decides written (r >>= fun a => .ok (next a)) faults := by
  cases r with
  | error stop => exact h.stop fun _ => id
  | ok a => exact h

theorem map {next : α → β} (h : Decides written r faults) :
    Decides written (next <$> r) faults := by
  cases r with
  | error stop => exact h.stop fun _ => id
  | ok a => exact h

end Decides

/-- Tells addresses from integers; other types are neither. -/
def Ir.Ty.isAddress? : Ty → Option Bool
  | int _ => some false
  | pointer _ => some true
  | void | function _ _ => none

namespace TypeExpr

variable {width : Nat} {written : Prop}

theorem decides_lowerNamed (name : Token) :
    Decides written (lowerNamed width name) (HasFault (named name)) := by
  unfold lowerNamed
  split
  · next h => rintro f (hvoid | hunknown) <;> simp_all
  split
  · next h => rintro f (hvoid | hunknown) <;> simp_all
  split
  · next h => rintro f (hvoid | hunknown) <;> simp_all
  split
  · next h => exact ⟨.void h, fun _ => rfl⟩
  · next hint hbool hchar hvoid => exact ⟨.unknown (by simp [*]), fun _ => rfl⟩

theorem hasFault_pointer_iff {inner : TypeExpr} {star : Token} {f : LoweringFault} :
    (pointer inner star).HasFault f ↔ inner.isVoid = false ∧ inner.HasFault f :=
  ⟨fun | .pointer hvoid h => ⟨hvoid, h⟩, fun ⟨hvoid, h⟩ => .pointer hvoid h⟩

/-- What is wrong with what a function gives back. -/
def ResultHasFault (ret : Option TypeExpr) (f : LoweringFault) : Prop :=
  ∃ type ∈ ret, type.isVoid = false ∧ type.HasFault f

theorem hasFault_function_iff {args : List TypeExpr} {ret : Option TypeExpr} {left right : Token}
    {f : LoweringFault} : (function args ret left right).HasFault f ↔
      ResultHasFault ret f ∨ ∃ arg ∈ args, arg.HasFault f := by
  constructor
  · rintro (_ | _ | _ | ⟨harg, h⟩ | ⟨hvoid, h⟩)
    · exact .inr ⟨_, harg, h⟩
    · exact .inl ⟨_, rfl, hvoid, h⟩
  · rintro (⟨type, htype, hvoid, h⟩ | ⟨arg, harg, h⟩)
    · cases htype
      exact .result hvoid h
    · exact .argument harg h

theorem decides_result {ret : TypeExpr}
    (h : Decides written (ret.lower width) ret.HasFault) :
    Decides written (lowerReturn width (some ret)) (ResultHasFault (some ret)) := by
  change Decides written (if ret.isVoid then .ok .void else ret.lower width) _
  split
  · next hvoid =>
      rintro f ⟨type, htype, hnot, -⟩
      cases htype
      exact Bool.false_ne_true (hnot.symm.trans hvoid)
  · next hvoid => exact h.congr fun f => by simp [ResultHasFault, hvoid]

theorem lower_function (args : List TypeExpr) (ret : Option TypeExpr) (left right : Token) :
    (function args ret left right).lower width = (do
      let result ← lowerReturn width ret
      let types ← lowerAll width args
      .ok (.pointer (.function result types))) := by
  cases ret with
  | none => rfl
  | some ret =>
      simp only [lower, lowerReturn]
      split <;> rfl

mutual

theorem decides_lower : ∀ t : TypeExpr, Decides written (t.lower width) t.HasFault
  | named name => decides_lowerNamed name
  | pointer inner star => by
    unfold lower
    split
    · next hvoid =>
        intro f h
        exact Bool.false_ne_true ((hasFault_pointer_iff.mp h).1.symm.trans hvoid)
    · next hvoid =>
        refine Decides.map ((decides_lower inner).congr fun f => ?_)
        simp [hasFault_pointer_iff, hvoid]
  | function args none left right => by
    have hresult : Decides written (lowerReturn width none) (ResultHasFault none) :=
      fun f ⟨type, htype, _⟩ => nomatch htype
    rw [lower_function]
    refine (hresult.bind fun _ _ => (decides_lowerAll args).bind_ok).congr fun f => ?_
    rw [hasFault_function_iff]
  | function args (some ret) left right => by
    rw [lower_function]
    refine ((decides_result (decides_lower ret)).bind fun _ _ =>
      (decides_lowerAll args).bind_ok).congr fun f => ?_
    rw [hasFault_function_iff]

theorem decides_lowerAll : ∀ ts : List TypeExpr,
    Decides written (lowerAll width ts) fun f => ∃ t ∈ ts, t.HasFault f
  | [] => fun f ⟨t, ht, _⟩ => List.not_mem_nil ht
  | t :: rest => by
    unfold lowerAll
    refine ((decides_lower t).bind fun _ _ => (decides_lowerAll rest).bind_ok).congr fun f => ?_
    simp

end

theorem decides_lowerReturn (ret : Option TypeExpr) :
    Decides written (lowerReturn width ret) (ResultHasFault ret) := by
  cases ret with
  | none => exact fun f ⟨type, htype, _⟩ => nomatch htype
  | some ret => exact decides_result (decides_lower ret)

theorem isAddress?_of_lower {t : TypeExpr} {type : Ty} (h : t.lower width = .ok type) :
    type.isAddress? = some t.isAddress := by
  cases t with
  | named name => obtain rfl | rfl | rfl := eq_of_lowerNamed h <;> rfl
  | pointer inner star =>
      obtain ⟨target, rfl, -⟩ := exists_of_lower_pointer h
      rfl
  | function args ret left right =>
      obtain ⟨result, types, rfl, -, -⟩ := exists_of_lower_function h
      rfl

theorem isAddress?_of_lowerAll {ts : List TypeExpr} {types : List Ty}
    (h : lowerAll width ts = .ok types) :
    types.map Ty.isAddress? = ts.map fun t => some t.isAddress := by
  induction ts generalizing types with
  | nil =>
      cases h
      rfl
  | cons t rest ih =>
      unfold lowerAll at h
      obtain ⟨type, ht, h⟩ := exists_of_bind_eq_ok h
      obtain ⟨others, hrest, h⟩ := exists_of_bind_eq_ok h
      cases h
      rw [List.map_cons, List.map_cons, isAddress?_of_lower ht, ih hrest]

end TypeExpr

namespace Ir.Ty

theorem isWritable_bit : bit.isWritable = true := by
  decide +kernel

theorem isWritable_byte : byte.isWritable = true := by
  decide +kernel

theorem areWritable_eq_true {types : List Ty} :
    areWritable types = true ↔ ∀ type ∈ types, type.isWritable = true := by
  induction types with
  | nil => simp [areWritable]
  | cons type rest ih => simp [areWritable, ih]

end Ir.Ty

namespace TypeExpr

variable {width : Nat}

mutual

theorem isWritable_of_lower (hwidth : Decimal.isWritable width = true) {type : Ty} :
    ∀ t : TypeExpr, t.lower width = .ok type → type.isWritable = true
  | named _, h => by
    obtain rfl | rfl | rfl := eq_of_lowerNamed h
    · exact hwidth
    · exact Ty.isWritable_bit
    · exact Ty.isWritable_byte
  | pointer inner _, h => by
    obtain ⟨target, rfl, rfl | hinner⟩ := exists_of_lower_pointer h
    · exact Ty.isWritable_byte
    · have htarget := isWritable_of_lower hwidth inner hinner
      exact htarget
  | function args none _ _, h => by
    obtain ⟨_, types, rfl, hret, hargs⟩ := exists_of_lower_function h
    cases hret
    have htypes := Ty.areWritable_eq_true.mpr (isWritable_of_lowerAll hwidth args hargs)
    simp [Ty.isWritable, htypes]
  | function args (some ret) _ _, h => by
    obtain ⟨result, types, rfl, hret, hargs⟩ := exists_of_lower_function h
    have htypes := Ty.areWritable_eq_true.mpr (isWritable_of_lowerAll hwidth args hargs)
    have hresult : result.isWritable = true := by
      rw [lowerReturn] at hret
      split at hret
      · cases hret
        rfl
      · exact isWritable_of_lower hwidth ret hret
    simp [Ty.isWritable, htypes, hresult]

theorem isWritable_of_lowerAll (hwidth : Decimal.isWritable width = true) {types : List Ty} :
    ∀ ts : List TypeExpr, lowerAll width ts = .ok types → ∀ type ∈ types, type.isWritable = true
  | [], h => by
    cases h
    exact fun _ hmem => nomatch hmem
  | t :: rest, h => by
    unfold lowerAll at h
    obtain ⟨type, ht, h⟩ := exists_of_bind_eq_ok h
    obtain ⟨others, hrest, h⟩ := exists_of_bind_eq_ok h
    cases h
    exact List.forall_mem_cons.mpr
      ⟨isWritable_of_lower hwidth t ht, isWritable_of_lowerAll hwidth rest hrest⟩

end

end TypeExpr

namespace Signature

variable {width : Nat} {sig : Signature} {ret : Ty} {types : List Ty}

/-- What the lowered types of a function tell of its signature. -/
structure Gives (written : Prop) (sig : Signature) (ret : Ty) (types : List Ty) : Prop where
  args : types.map Ty.isAddress? = sig.args.map fun t => some t.isAddress
  result : ret.isAddress? = sig.resultIsAddress?
  void : ret.isAddress? = none → ret = .void
  ret : written → ret.isWritable = true
  types : written → ∀ type ∈ types, type.isWritable = true

theorem decides_lower {written : Prop} :
    Decides written (sig.lower width) sig.HasFault := by
  unfold Signature.lower
  refine ((TypeExpr.decides_lowerReturn sig.ret).bind fun _ _ =>
    (TypeExpr.decides_lowerAll sig.args).bind_ok).congr fun f => ?_
  exact TypeExpr.hasFault_function_iff.symm

theorem gives_of_lower (h : sig.lower width = .ok (ret, types)) :
    sig.Gives (Decimal.isWritable width = true) ret types := by
  unfold Signature.lower at h
  obtain ⟨result, hret, h⟩ := exists_of_bind_eq_ok h
  obtain ⟨lowered, hargs, h⟩ := exists_of_bind_eq_ok h
  cases h
  have htypes := fun hwidth => TypeExpr.isWritable_of_lowerAll hwidth _ hargs
  have hargs := TypeExpr.isAddress?_of_lowerAll hargs
  cases htype : sig.ret with
  | none =>
      rw [htype] at hret
      cases hret
      exact ⟨hargs, by simp [resultIsAddress?, htype, Ty.isAddress?], fun _ => rfl, fun _ => rfl,
        htypes⟩
  | some type =>
      rw [htype, TypeExpr.lowerReturn] at hret
      split at hret
      · next hvoid =>
          cases hret
          refine ⟨hargs, ?_, fun _ => rfl, fun _ => rfl, htypes⟩
          simp [resultIsAddress?, htype, Option.filter, hvoid, Ty.isAddress?]
      · next hvoid =>
          have haddress := TypeExpr.isAddress?_of_lower hret
          refine ⟨hargs, ?_, ?_, fun hwidth => TypeExpr.isWritable_of_lower hwidth _ hret, htypes⟩
          · simp [resultIsAddress?, htype, Option.filter, hvoid, haddress]
          · intro hnone
            rw [haddress] at hnone
            cases hnone

end Signature

end KestrelCompiler
