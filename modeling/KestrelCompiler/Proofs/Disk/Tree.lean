import KestrelCompiler.Disk
import Mathlib.Data.List.Infix

/-!
What a change of a tree leaves alone. An entry that is put somewhere is all there is from that place
on; around it there are directories, and beside it everything stays.
-/

namespace KestrelCompiler

/-- What an entry is, apart from what stands below it. -/
inductive Sight where
  | file (bytes : ByteArray)
  | directory

namespace Entry

def sight : Entry → Sight
  | file bytes => .file bytes
  | directory _ => .directory

/-- An entry with nothing below it. -/
def IsLeaf (e : Entry) : Prop :=
  ∀ name rest, e.at? (name :: rest) = none

theorem isLeaf_file (bytes : ByteArray) : (file bytes).IsLeaf :=
  fun _ _ => rfl

theorem isLeaf_empty : (directory []).IsLeaf :=
  fun _ _ => rfl

/-- What stands below a place stands below what stands there. -/
theorem at?_append (e : Entry) (place rest : Place) :
    e.at? (place ++ rest) = (e.at? place).bind (·.at? rest) := by
  induction place generalizing e with
  | nil => rw [List.nil_append, at?, Option.bind_some]
  | cons name place ih =>
      cases e with
      | file bytes => rfl
      | directory contents =>
          rw [List.cons_append, at?, at?]
          cases contents.lookup name with
          | none => rfl
          | some inner => exact ih inner

theorem lookup_filter_ne {contents : List (String × Entry)} {name other : String}
    (h : other ≠ name) :
    (contents.filter (·.1 ≠ name)).lookup other = contents.lookup other := by
  induction contents with
  | nil => rfl
  | cons first rest ih =>
      obtain ⟨key, entry⟩ := first
      by_cases hkey : key = name
      · have hother : (other == key) = false := beq_eq_false_iff_ne.mpr (hkey ▸ h)
        rw [List.filter_cons_of_neg (by simpa using hkey), ih, List.lookup_cons, hother]
      · rw [List.filter_cons_of_pos (by simpa using hkey), List.lookup_cons, List.lookup_cons, ih]

section Put

variable (new old : Entry) (name : String) (rest : Place)

/-- The first step towards the new entry. -/
theorem at?_put_same (place : Place) : (put new old (name :: rest)).at? (name :: place) =
    (put new ((old.at? [name]).getD (.directory [])) rest).at? place := by
  cases old with
  | file bytes =>
      rw [put, at?.eq_3, List.lookup_cons_self]
      rfl
  | directory contents =>
      rw [put, at?.eq_3, List.lookup_cons_self, at?.eq_3]
      cases contents.lookup name <;> rfl

theorem at?_put_other {other : String} (h : other ≠ name) (place : Place) :
    (put new old (name :: rest)).at? (other :: place) = old.at? (other :: place) := by
  have hother : (other == name) = false := beq_eq_false_iff_ne.mpr h
  cases old with
  | file bytes =>
      rw [put, at?.eq_3, List.lookup_cons, hother]
      rfl
  | directory contents =>
      rw [put, at?.eq_3, List.lookup_cons, hother, lookup_filter_ne h]
      rfl

/-- At its place and from there on there is the new entry. -/
theorem at?_put_below (place below : Place) :
    (put new old place).at? (place ++ below) = new.at? below := by
  induction place generalizing old with
  | nil => rw [put]; rfl
  | cons name place ih => rw [List.cons_append, at?_put_same, ih]

/-- Around the new entry there are directories. -/
theorem sight_put_above {above place : Place} (h : above <+: place) (hne : above ≠ place) :
    ((put new old place).at? above).map sight = some .directory := by
  induction above generalizing old place with
  | nil =>
      obtain _ | ⟨name, place⟩ := place
      · exact absurd rfl hne
      · cases old <;> rfl
  | cons name above ih =>
      obtain ⟨inner, rfl, hinner⟩ := List.cons_prefix_iff.mp h
      rw [at?_put_same]
      exact ih _ hinner fun heq => hne (congrArg _ heq)

/-- Beside the new entry nothing changes. -/
theorem at?_put_beside {place beside : Place} (h : ¬ place <+: beside) (h' : ¬ beside <+: place) :
    (put new old place).at? beside = old.at? beside := by
  induction place generalizing old beside with
  | nil => exact absurd List.nil_prefix h
  | cons name place ih =>
      obtain _ | ⟨other, beside⟩ := beside
      · exact absurd List.nil_prefix h'
      by_cases hsame : other = name
      · subst hsame
        rw [List.cons_prefix_cons, and_iff_right rfl] at h h'
        have hsteps := at?_append old [other] beside
        rw [List.singleton_append] at hsteps
        rw [at?_put_same, ih _ h h', hsteps]
        cases old.at? [other] with
        | some inner => rfl
        | none =>
            obtain _ | ⟨first, beside⟩ := beside
            · exact absurd List.nil_prefix h'
            · rfl
      · exact at?_put_other new old name place hsame beside

end Put

end Entry

namespace Disk

/-- What stands at a place, as far as it can be told without opening it. -/
def sight? (d : Disk) (place : Place) : Option Sight :=
  (d.entry? place).map Entry.sight

/-- The directories around a place exist. -/
def Surrounds (d : Disk) (place : Place) : Prop :=
  ∀ above, above <+: place → above ≠ place → d.sight? above = some .directory

variable {d : Disk} {place : Place}

theorem sight?_eq_file_iff {bytes : ByteArray} :
    d.sight? place = some (.file bytes) ↔ d.entry? place = some (.file bytes) := by
  rw [sight?]
  cases d.entry? place with
  | none => simp
  | some e => cases e <;> simp [Entry.sight]

/-- Nothing stands below what is not a directory. -/
theorem sight?_append_of_ne (h : d.sight? place ≠ some .directory) (name : String) (rest : Place) :
    d.sight? (place ++ name :: rest) = none := by
  rw [sight?, entry?, Entry.at?_append]
  rw [sight?, entry?] at h
  rcases hentry : d.root.at? place with _ | _ | _
  · rfl
  · rfl
  · rw [hentry] at h
    exact absurd rfl h

theorem surrounds_of_sight? {s : Sight} (h : d.sight? place = some s) : d.Surrounds place := by
  rintro above ⟨_ | ⟨name, rest⟩, rfl⟩ hne
  · exact absurd (List.append_nil above).symm hne
  · by_contra habove
    rw [sight?_append_of_ne habove] at h
    cases h

theorem sight?_dropLast (h : d.sight? place = some .directory) :
    d.sight? place.dropLast = some .directory := by
  by_cases hsame : place.dropLast = place
  · rwa [hsame]
  · exact surrounds_of_sight? h _ (List.dropLast_prefix place) hsame

namespace Surrounds

theorem nil : d.Surrounds [] := by
  intro above habove hne
  exact absurd (List.prefix_nil.mp habove) hne

theorem append (h : d.sight? place = some .directory) (name : String) :
    d.Surrounds (place ++ [name]) := by
  intro above habove hne
  rcases List.prefix_concat_iff.mp habove with rfl | habove
  · exact absurd rfl hne
  · by_cases hsame : above = place
    · rw [hsame, h]
    · exact surrounds_of_sight? h above habove hsame

theorem dropLast (h : d.Surrounds place) : d.Surrounds place.dropLast := by
  intro above habove hne
  refine h above (habove.trans (List.dropLast_prefix place)) ?_
  rintro rfl
  exact hne (habove.eq_of_length_le (List.dropLast_prefix above).length_le)

end Surrounds

section Put

variable {new : Entry}

theorem sight?_put_self : (d.put place new).sight? place = some new.sight := by
  have hself := Entry.at?_put_below new d.root place []
  rw [List.append_nil] at hself
  rw [sight?, put, entry?, hself]
  rfl

/-- At its place there is the new entry, below it nothing, around it directories, and everywhere else
what was there before. -/
theorem sight?_put_cases (hleaf : new.IsLeaf) (d : Disk) (place other : Place) :
    other = place ∧ (d.put place new).sight? other = some new.sight ∨
    (∃ name rest, other = place ++ name :: rest) ∧ (d.put place new).sight? other = none ∨
    other ≠ place ∧ other <+: place ∧ (d.put place new).sight? other = some .directory ∨
    other ≠ place ∧ (d.put place new).sight? other = d.sight? other := by
  by_cases hbelow : place <+: other
  · obtain ⟨_ | ⟨name, rest⟩, rfl⟩ := hbelow
    · rw [List.append_nil]
      exact .inl ⟨rfl, sight?_put_self⟩
    · refine .inr (.inl ⟨⟨name, rest, rfl⟩, ?_⟩)
      rw [sight?, put, entry?, Entry.at?_put_below, hleaf]
      rfl
  · have hne : other ≠ place := by
      rintro rfl
      exact hbelow (List.prefix_refl other)
    by_cases habove : other <+: place
    · exact .inr (.inr (.inl ⟨hne, habove, Entry.sight_put_above new d.root habove hne⟩))
    · refine .inr (.inr (.inr ⟨hne, ?_⟩))
      rw [sight?, put, entry?, Entry.at?_put_beside new d.root hbelow habove]
      rfl

/-- A file or an empty directory may be put where there is no directory, inside one that exists. All
else stays as it is. -/
theorem sight?_put (hleaf : new.IsLeaf) (haround : d.Surrounds place)
    (hfree : d.sight? place ≠ some .directory) (other : Place) :
    (d.put place new).sight? other = if other = place then some new.sight else d.sight? other := by
  rcases sight?_put_cases hleaf d place other with
    ⟨hself, hsight⟩ | ⟨⟨name, rest, rfl⟩, hsight⟩ | ⟨hne, habove, hsight⟩ | ⟨hne, hsight⟩
  · rw [hsight, if_pos hself]
  · rw [hsight, if_neg (by simp), sight?_append_of_ne hfree]
  · rw [hsight, if_neg hne, haround other habove hne]
  · rw [hsight, if_neg hne]

/-- Wherever something is put, every file is an old one or the new one. -/
theorem file_of_put (hleaf : new.IsLeaf) {other : Place} {bytes : ByteArray}
    (h : (d.put place new).sight? other = some (.file bytes)) :
    d.sight? other = some (.file bytes) ∨ new.sight = .file bytes := by
  rcases sight?_put_cases hleaf d place other with
    ⟨-, hsight⟩ | ⟨-, hsight⟩ | ⟨-, -, hsight⟩ | ⟨-, hsight⟩
  · exact .inr (Option.some.inj (hsight.symm.trans h))
  · cases hsight.symm.trans h
  · cases hsight.symm.trans h
  · exact .inl (hsight.symm.trans h)

end Put

end Disk

end KestrelCompiler
