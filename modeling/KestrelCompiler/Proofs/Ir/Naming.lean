import KestrelCompiler.Ir.NameScope
import KestrelCompiler.Ir.Printer
import Mathlib.Data.List.Nodup

/-!
Names. A scope never gives out a name twice, and the names that it gives out cannot be taken for
numbered results, which begin with a point.
-/

namespace KestrelCompiler.Ir

theorem toString_injective {m n : Nat} (h : toString m = toString n) : m = n := by
  rw [Nat.toString_eq_repr, Nat.toString_eq_repr] at h
  have hdigits := congrArg (fun s => Nat.ofDigitChars 10 s.toList 0) h
  simpa only [Nat.toList_repr, Nat.ofDigitChars_ten_toDigits] using hdigits

theorem append_toString_injective {text : String} {m n : Nat}
    (h : text ++ toString m = text ++ toString n) : m = n := by
  have hlist := congrArg String.toList h
  rw [String.toList_append, String.toList_append] at hlist
  exact toString_injective (String.toList_inj.mp (List.append_cancel_left hlist))

theorem resultName_injective {m n : Nat} (h : resultName m = resultName n) : m = n :=
  append_toString_injective h

theorem stringName_injective {m n : Nat} (h : stringName m = stringName n) : m = n :=
  append_toString_injective h

/-- A name that does not begin with a point. -/
def IsPlain (name : String) : Prop :=
  ∃ c rest, name.toList = c :: rest ∧ c ≠ '.'

theorem IsPlain.append {name : String} (h : IsPlain name) (more : String) :
    IsPlain (name ++ more) := by
  obtain ⟨c, rest, hname, hc⟩ := h
  exact ⟨c, rest ++ more.toList, by rw [String.toList_append, hname, List.cons_append], hc⟩

theorem not_isPlain_resultName (n : Nat) : ¬ IsPlain (resultName n) := by
  rintro ⟨c, rest, hname, hc⟩
  rw [resultName, String.toList_append] at hname
  exact hc (List.cons.inj hname).1.symm

theorem not_isPlain_stringName (n : Nat) : ¬ IsPlain (stringName n) := by
  rintro ⟨c, rest, hname, hc⟩
  rw [stringName, String.toList_append] at hname
  exact hc (List.cons.inj hname).1.symm

namespace NameScope

theorem numbered_injective {base : String} {m n : Nat} (h : numbered base m = numbered base n) :
    m = n :=
  append_toString_injective h

theorem IsPlain.numbered {base : String} (h : IsPlain base) (n : Nat) :
    IsPlain (numbered base n) :=
  (h.append ".").append (toString n)

/-- More candidates than names: one of them is free. -/
theorem freeNumber_not_mem (used : List String) (base : String) (count : Nat) :
    numbered base (freeNumber used base count) ∉ used := by
  rw [freeNumber]
  cases hfind : (List.range' (count + 1) (used.length + 1)).find? fun n =>
      !used.contains (numbered base n) with
  | some n =>
      have hfree := List.find?_some hfind
      simpa using hfree
  | none =>
      have htaken : ∀ n ∈ List.range' (count + 1) (used.length + 1), numbered base n ∈ used := by
        simpa using hfind
      have hnodup : ((List.range' (count + 1) (used.length + 1)).map (numbered base)).Nodup :=
        List.Nodup.map (fun _ _ => numbered_injective) (List.nodup_range' ..)
      have hsubset : (List.range' (count + 1) (used.length + 1)).map (numbered base) ⊆ used := by
        intro name hname
        obtain ⟨n, hn, rfl⟩ := List.mem_map.mp hname
        exact htaken n hn
      have hle := hnodup.length_le_of_subset hsubset
      rw [List.length_map, List.length_range'] at hle
      omega

variable (s : NameScope) (name : String)

theorem used_register : (s.register name).2.used = (s.register name).1 :: s.used := by
  rw [register]
  split <;> rfl

theorem register_not_mem : (s.register name).1 ∉ s.used := by
  rw [register]
  split
  · exact freeNumber_not_mem _ _ _
  · next hfree => simpa using hfree

theorem isPlain_register {name : String} (h : IsPlain name) : IsPlain (s.register name).1 := by
  rw [register]
  split
  · exact IsPlain.numbered h _
  · exact h

end NameScope

end KestrelCompiler.Ir
