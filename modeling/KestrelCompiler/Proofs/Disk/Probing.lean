import KestrelCompiler.Proofs.Disk.Naming

/-!
What is seen of a tree without opening anything. A place shows what stands there, unless its text,
or a name on the way to it, is longer than a file system takes. What is seen there is found by the
absolute path to the place as well.
-/

namespace KestrelCompiler

namespace Entry

variable {e found : Entry} {place : Place}

/-- The way down to a place comes to a name that is too long, in a directory. -/
def MeetsLong (e : Entry) (place : Place) : Prop :=
  ∃ above name below, place = above ++ name :: below ∧
    (e.at? above).map sight = some .directory ∧ Path.isLongPart name = true

theorem not_meetsLong_nil : ¬ e.MeetsLong [] := by
  rintro ⟨above, name, below, hplace, -⟩
  exact List.append_ne_nil_of_right_ne_nil above (List.cons_ne_nil name below) hplace.symm

theorem not_meetsLong_file {bytes : ByteArray} : ¬ (file bytes).MeetsLong place := by
  rintro ⟨_ | ⟨first, above⟩, name, below, -, hsight, -⟩ <;> cases hsight

theorem meetsLong_cons_iff {contents : List (String × Entry)} {name : String} {rest : Place} :
    (directory contents).MeetsLong (name :: rest) ↔ Path.isLongPart name = true ∨
      ∃ inner, contents.lookup name = some inner ∧ inner.MeetsLong rest := by
  constructor
  · rintro ⟨_ | ⟨first, above⟩, long, below, hplace, hsight, hlong⟩
    · cases hplace
      exact .inl hlong
    · cases hplace
      rw [at?] at hsight
      cases hinner : contents.lookup name with
      | none =>
          rw [hinner] at hsight
          cases hsight
      | some inner =>
          rw [hinner] at hsight
          exact .inr ⟨inner, rfl, above, long, below, rfl, hsight, hlong⟩
  · rintro (hlong | ⟨inner, hinner, above, long, below, rfl, hsight, hlong⟩)
    · exact ⟨[], name, rest, rfl, rfl, hlong⟩
    · refine ⟨name :: above, long, below, rfl, ?_, hlong⟩
      rw [at?, hinner]
      exact hsight

theorem MeetsLong.further {above : Place} (h : e.MeetsLong above) (habove : above <+: place) :
    e.MeetsLong place := by
  obtain ⟨higher, name, below, rfl, hsight, hlong⟩ := h
  obtain ⟨rest, rfl⟩ := habove
  refine ⟨higher, name, below ++ rest, ?_, hsight, hlong⟩
  rw [List.append_assoc, List.cons_append]

theorem MeetsLong.of_concat {name : String} (h : e.MeetsLong (place ++ [name]))
    (hname : Path.isLongPart name = false) : e.MeetsLong place := by
  obtain ⟨above, long, below, hplace, hsight, hlong⟩ := h
  rcases List.eq_nil_or_concat below with rfl | ⟨below, last, rfl⟩
  · obtain ⟨-, hsame⟩ := List.append_inj' hplace rfl
    cases hsame
    rw [hname] at hlong
    cases hlong
  · rw [List.concat_eq_append, ← List.cons_append, ← List.append_assoc] at hplace
    exact ⟨above, long, below, (List.append_inj' hplace rfl).1, hsight, hlong⟩

/-- A look along a way is refused at a long name only. -/
theorem descend_eq_long_iff : e.descend place = .error .nameTooLong ↔ e.MeetsLong place := by
  induction place generalizing e with
  | nil => exact iff_of_false nofun not_meetsLong_nil
  | cons name rest ih =>
      cases e with
      | file bytes => exact iff_of_false nofun not_meetsLong_file
      | directory contents =>
          rw [meetsLong_cons_iff, descend]
          by_cases hlong : Path.isLongPart name = true
          · rw [if_pos hlong]
            exact iff_of_true rfl (.inl hlong)
          rw [if_neg hlong, or_iff_right hlong]
          cases hinner : contents.lookup name with
          | none =>
              refine iff_of_false nofun ?_
              rintro ⟨_, hnone, -⟩
              cases hnone
          | some inner =>
              refine ih.trans ⟨fun h => ⟨inner, rfl, h⟩, ?_⟩
              rintro ⟨_, hsame, h⟩
              cases hsame
              exact h

/-- What a look along a way finds is there. -/
theorem at?_of_descend (h : e.descend place = .ok found) : e.at? place = some found := by
  induction place generalizing e with
  | nil =>
      rw [descend] at h
      cases h
      exact at?.eq_1 _
  | cons name rest ih =>
      cases e with
      | file bytes => cases h
      | directory contents =>
          rw [descend] at h
          split at h
          · cases h
          · rw [at?.eq_3]
            cases hlookup : contents.lookup name with
            | none =>
                rw [hlookup] at h
                cases h
            | some inner =>
                rw [hlookup] at h
                exact ih h

theorem descend_of_at? (h : e.at? place = some found) (hshort : ¬ e.MeetsLong place) :
    e.descend place = .ok found := by
  induction place generalizing e with
  | nil =>
      rw [at?] at h
      cases h
      exact descend.eq_1 _
  | cons name rest ih =>
      cases e with
      | file bytes => cases h
      | directory contents =>
          rw [meetsLong_cons_iff, not_or] at hshort
          rw [at?] at h
          obtain ⟨inner, hinner, hrest⟩ := Option.bind_eq_some_iff.mp h
          rw [descend, if_neg hshort.1, hinner]
          exact ih hrest fun hlong => hshort.2 ⟨inner, hinner, hlong⟩

end Entry

namespace Place

variable {place above : Place}

/-- The absolute path to a place. -/
def path (place : Place) : Path where
  root := "/"
  parts := place

theorem render_path (place : Place) : place.path.render = place.render :=
  rfl

/-- Each name leads one step down. -/
def IsProper (place : Place) : Prop :=
  ∀ name ∈ place, Path.isProper name = true ∧ name ≠ ".." ∧ '\x00' ∉ name.toList

instance (place : Place) : Decidable place.IsProper :=
  inferInstanceAs (Decidable (∀ name ∈ place, _))

namespace IsProper

theorem around (h : place.IsProper) (habove : above <+: place) : above.IsProper :=
  fun name hname => h name (habove.subset hname)

theorem concat (h : place.IsProper) {name : String} (hname : Path.isProper name = true)
    (hdown : name ≠ "..") (hnull : '\x00' ∉ name.toList) : IsProper (place ++ [name]) := by
  intro other hother
  rcases List.mem_append.mp hother with hother | hother
  · exact h other hother
  · obtain rfl := List.mem_singleton.mp hother
    exact ⟨hname, hdown, hnull⟩

/-- What a path without null characters names has proper names only. -/
theorem resolve {d : Disk} (hworking : d.working.IsProper) {text : String}
    (hnull : '\x00' ∉ text.toList) : (d.resolve (.ofString text)).IsProper := by
  have horigin : (d.origin (.ofString text)).IsProper := by
    rw [Disk.origin]
    split
    · exact hworking
    · exact fun _ hname => absurd hname List.not_mem_nil
  refine List.foldlRecOn _ _ horigin fun place hplace part hpart => ?_
  split
  · exact hplace.around (List.dropLast_prefix place)
  · next hdown =>
      exact hplace.concat (List.mem_filter.mp hpart).2 hdown
        fun hmem => hnull (Path.mem_of_mem_parts hpart hmem)

end IsProper

theorem IsProper.not_mem_render (h : place.IsProper) : '\x00' ∉ place.render.toList := by
  intro hmem
  rw [render, String.toList_append, String.toList_intercalate] at hmem
  rcases List.mem_append.mp hmem with hslash | hmem
  · revert hslash
    decide
  · rcases List.mem_intercalate hmem with hslash | ⟨chars, hchars, hnull⟩
    · revert hslash
      decide
    · obtain ⟨name, hname, rfl⟩ := List.mem_map.mp hchars
      exact (h name hname).2.2 hnull

theorem size_render_le (h : above.Sublist place) :
    above.render.utf8ByteSize ≤ place.render.utf8ByteSize := by
  have hchars := (h.map String.toList).intercalate ['/']
  have hlen := String.utf8Len_le_of_sublist (hchars.append_left ['/'])
  rw [← String.utf8Len_toList, ← String.utf8Len_toList, render, render, String.toList_append,
    String.toList_append, String.toList_intercalate, String.toList_intercalate]
  exact hlen

end Place

namespace Disk

variable {d : Disk} {place : Place} {e : Entry}

/-- The text of a place, or a name in a directory on the way to it, is longer than a file system
takes. -/
def IsTooLong (d : Disk) (place : Place) : Prop :=
  Path.maxBytes < place.render.utf8ByteSize ∨ d.root.MeetsLong place

theorem checkText_render_place (hproper : place.IsProper) (h : ¬ d.IsTooLong place) :
    checkText place.render = .ok () :=
  checkText_eq_ok_iff.mpr ⟨hproper.not_mem_render, Nat.le_of_not_lt fun hlong => h (.inl hlong)⟩

theorem probe_of_tooLong (hproper : place.IsProper) (h : d.IsTooLong place) :
    d.probe place = .error .nameTooLong := by
  by_cases hlong : Path.maxBytes < place.render.utf8ByteSize
  · have hcheck : checkText place.render = .error .nameTooLong := by
      rw [checkText, if_neg (by simpa using hproper.not_mem_render), if_pos hlong]
    rw [probe, hcheck]
  · have hcheck : checkText place.render = .ok () :=
      checkText_eq_ok_iff.mpr ⟨hproper.not_mem_render, Nat.le_of_not_lt hlong⟩
    rw [probe, hcheck, Entry.descend_eq_long_iff.mpr (h.resolve_left hlong)]

theorem probe_of_not_tooLong (hproper : place.IsProper) (h : ¬ d.IsTooLong place) :
    d.probe place = .ok (d.entry? place) := by
  have hshort : ¬ d.root.MeetsLong place := fun hlong => h (.inr hlong)
  rw [probe, checkText_render_place hproper h]
  rcases hdescend : d.root.descend place with error | e
  · have hnothing : d.entry? place = none := by
      by_contra hsome
      obtain ⟨e, he⟩ := Option.ne_none_iff_exists'.mp hsome
      cases hdescend.symm.trans (Entry.descend_of_at? he hshort)
    rw [hnothing]
    cases error with
    | nameTooLong => exact absurd (Entry.descend_eq_long_iff.mp hdescend) hshort
    | _ => rfl
  · rw [Disk.entry?, Entry.at?_of_descend hdescend]

theorem entry?_of_probe (h : d.probe place = .ok (some e)) : d.entry? place = some e := by
  unfold probe at h
  split at h
  · cases h
  · cases h
  · next hdescend =>
      cases h
      exact Entry.at?_of_descend hdescend
  · cases h

/-- The names of a place lead there, one step after the other. -/
theorem follow_append {rest : Place} {s : Sight} (h : d.sight? (place ++ rest) = some s)
    (hproper : rest.IsProper) (hshort : ¬ d.root.MeetsLong (place ++ rest)) :
    d.follow place rest = .ok (place ++ rest) := by
  induction rest generalizing place with
  | nil => rw [follow, List.append_nil]
  | cons name rest ih =>
      have hdirectory : d.sight? place = some .directory :=
        surrounds_of_sight? h place (List.prefix_append _ _) (by simp)
      obtain ⟨hname, hdown, -⟩ := hproper name List.mem_cons_self
      have hstep : place.next? name = some (place ++ [name]) := by
        rw [Place.next?, if_neg (by simpa [Path.isProper] using hname), if_neg hdown, if_neg]
        exact fun hlong => hshort ⟨place, name, rest, rfl, hdirectory, hlong⟩
      rw [List.append_cons] at h hshort ⊢
      exact follow_cons_iff.mpr ⟨hdirectory, _, hstep,
        ih h (fun other hother => hproper other (List.mem_cons_of_mem _ hother)) hshort⟩

/-- What stands at a place is found by the path to it. -/
theorem find_path (hproper : place.IsProper) (hshort : ¬ d.IsTooLong place)
    (h : d.entry? place = some e) : d.find place.path = .ok e := by
  have hsight : d.sight? ([] ++ place) = some e.sight := by
    rw [List.nil_append, sight?, h]
    rfl
  have hfollow := follow_append hsight hproper fun hlong => hshort (.inr hlong)
  rw [find, Place.render_path, checkText_render_place hproper hshort]
  exact look_eq_ok_iff.mpr ⟨place, hfollow, h⟩

end Disk

end KestrelCompiler
