import KestrelCompiler.Proofs.Disk.Tree

/-!
What a write changes. Directories may appear where nothing was, and one file, to which the path that
was written leads. What another path leads to is the same afterwards, unless it leads to that file
as well or goes through a new directory and up again.
-/

namespace KestrelCompiler

/-- Where a part of a path leads from a directory. -/
def Place.next? (place : Place) (part : String) : Option Place :=
  if part = "" || part = "." then some place
  else if part = ".." then some place.dropLast
  else if Path.isLongPart part then none
  else some (place ++ [part])

/-- A part leads nowhere, up or one step down. -/
theorem Place.next?_cases {place next : Place} {part : String} (h : place.next? part = some next) :
    next = place ∨ part = ".." ∧ next = place.dropLast ∨ next = place ++ [part] := by
  unfold next? at h
  split at h
  · exact .inl (Option.some.inj h).symm
  split at h
  · next hup => exact .inr (.inl ⟨hup, (Option.some.inj h).symm⟩)
  split at h
  · cases h
  · exact .inr (.inr (Option.some.inj h).symm)

namespace Disk

variable {d d' : Disk} {place found : Place} {part : String} {parts rest : List String}
  {path : Path} {bytes : ByteArray}

section Follow

theorem follow_cons_iff : d.follow place (part :: rest) = .ok found ↔
    d.sight? place = some .directory ∧
      ∃ next, place.next? part = some next ∧ d.follow next rest = .ok found := by
  rw [follow, sight?, Place.next?]
  rcases d.entry? place with _ | _ | _
  · simp
  · simp [Entry.sight]
  · simp only [Option.map_some, Entry.sight, true_and]
    split
    · simp
    · split
      · simp
      · split <;> simp

theorem surrounds_of_follow (hplace : d.Surrounds place) (h : d.follow place parts = .ok found) :
    d.Surrounds found := by
  induction parts generalizing place with
  | nil =>
      cases h
      exact hplace
  | cons part rest ih =>
      obtain ⟨hdirectory, next, hnext, hrest⟩ := follow_cons_iff.mp h
      refine ih ?_ hrest
      rcases Place.next?_cases hnext with rfl | ⟨-, rfl⟩ | rfl
      · exact hplace
      · exact hplace.dropLast
      · exact .append hdirectory part

/-- A path that goes nowhere up stays below its start. -/
theorem prefix_of_follow (hdown : ".." ∉ parts) (h : d.follow place parts = .ok found) :
    place <+: found := by
  induction parts generalizing place with
  | nil =>
      cases h
      exact List.prefix_refl _
  | cons part rest ih =>
      obtain ⟨-, next, hnext, hrest⟩ := follow_cons_iff.mp h
      rw [List.mem_cons, not_or] at hdown
      refine List.IsPrefix.trans ?_ (ih hdown.2 hrest)
      rcases Place.next?_cases hnext with rfl | ⟨hup, -⟩ | rfl
      · exact List.prefix_refl _
      · exact absurd hup.symm hdown.1
      · exact List.prefix_append _ _

/-- Only directories are gone through, so that a path leads to the same place where those stay. -/
theorem follow_of_keeps
    (hkeeps : ∀ place, d.sight? place = some .directory → d'.sight? place = some .directory)
    (h : d.follow place parts = .ok found) : d'.follow place parts = .ok found := by
  induction parts generalizing place with
  | nil => exact h
  | cons part rest ih =>
      obtain ⟨hdirectory, next, hnext, hrest⟩ := follow_cons_iff.mp h
      exact follow_cons_iff.mpr ⟨hkeeps place hdirectory, next, hnext, ih hrest⟩

/-- Where a path leads that led nowhere before, it goes through a new directory. -/
theorem follow_or_exists_new (h : d'.follow place parts = .ok found) :
    d.follow place parts = .ok found ∨ ∃ before after new, parts = before ++ after ∧
      d'.follow place before = .ok new ∧ d.sight? new ≠ some .directory ∧
      d'.sight? new = some .directory ∧ d'.follow new after = .ok found := by
  induction parts generalizing place with
  | nil => exact .inl h
  | cons part rest ih =>
      obtain ⟨hdirectory, next, hnext, hrest⟩ := follow_cons_iff.mp h
      -- the ways part at the first directory that is not an old one
      by_cases hold : d.sight? place = some .directory
      · rcases ih hrest with hfollow | ⟨before, after, new, hparts, hbefore, hnew⟩
        · exact .inl (follow_cons_iff.mpr ⟨hold, next, hnext, hfollow⟩)
        · exact .inr ⟨part :: before, after, new, congrArg (part :: ·) hparts,
            follow_cons_iff.mpr ⟨hdirectory, next, hnext, hbefore⟩, hnew⟩
      · exact .inr ⟨[], part :: rest, place, rfl, rfl, hold, hdirectory, h⟩

end Follow

/-- Where a path leads. -/
def Reaches (d : Disk) (path : Path) (place : Place) : Prop :=
  d.follow (d.origin path) path.parts = .ok place

theorem look_eq_ok_iff {entry : Entry} : d.look place parts = .ok entry ↔
    ∃ found, d.follow place parts = .ok found ∧ d.entry? found = some entry := by
  rw [look]
  rcases d.follow place parts with e | found
  · simp [bind, Except.bind]
  · rcases hentry : d.entry? found with _ | other <;> simp [bind, Except.bind, hentry]

/-- A file is found where a path leads. -/
theorem find_eq_file_iff : d.find path = .ok (.file bytes) ↔
    checkText path.render = .ok () ∧ ∃ place, d.Reaches path place ∧
      d.sight? place = some (.file bytes) := by
  simp only [sight?_eq_file_iff, Reaches, ← look_eq_ok_iff]
  rw [find]
  rcases checkText path.render with e | ⟨⟩ <;> simp [bind, Except.bind]

section Making

/-- Another disk has the same directories, and maybe some where this one has nothing. -/
structure Widens (d d' : Disk) : Prop where
  working : d'.working = d.working
  sights : ∀ place, d'.sight? place = d.sight? place ∨
    d.sight? place = none ∧ d'.sight? place = some .directory

namespace Widens

theorem refl (d : Disk) : d.Widens d :=
  ⟨rfl, fun _ => .inl rfl⟩

theorem trans {d₁ d₂ d₃ : Disk} (h : d₁.Widens d₂) (h' : d₂.Widens d₃) : d₁.Widens d₃ := by
  refine ⟨h'.working.trans h.working, fun place => ?_⟩
  rcases h.sights place with hsame | ⟨hnothing, hmade⟩
  · rw [← hsame]
    exact h'.sights place
  · rcases h'.sights place with hsame' | ⟨hnothing', -⟩
    · exact .inr ⟨hnothing, hsame'.trans hmade⟩
    · rw [hmade] at hnothing'
      cases hnothing'

theorem keeps (h : d.Widens d') {s : Sight} (hsight : d.sight? place = some s) :
    d'.sight? place = some s := by
  rcases h.sights place with hsame | ⟨hnothing, -⟩
  · rw [hsame, hsight]
  · rw [hnothing] at hsight
    cases hsight

end Widens

theorem widens_put (haround : d.Surrounds place) (hnothing : d.sight? place = none) :
    d.Widens (d.put place (.directory [])) := by
  have hfree : d.sight? place ≠ some .directory := by
    rw [hnothing]
    exact (Option.some_ne_none _).symm
  refine ⟨rfl, fun other => ?_⟩
  rw [sight?_put Entry.isLeaf_empty haround hfree]
  split
  · next heq => exact .inr ⟨heq ▸ hnothing, rfl⟩
  · exact .inl rfl

/-- Along a path only directories are made, also where not all of them can be. -/
theorem widens_makeParts (made : Bool) (h : d.sight? place = some .directory) :
    d.Widens (d.makeParts made place parts).2 := by
  fun_induction makeParts d made place parts with
  | case1 d => exact .refl d
  | case2 d made place rest ih => exact ih (sight?_dropLast h)
  | case3 d => exact .refl d
  | case4 d made place part rest _ _ hnothing ih =>
      have hsight : d.sight? (place ++ [part]) = none := by
        rw [sight?, hnothing]
        rfl
      exact (widens_put (.append h part) hsight).trans (ih sight?_put_self)
  | case5 d made place part rest _ _ contents hentry ih =>
      refine ih ?_
      rw [sight?, hentry]
      rfl
  | case6 d => exact .refl d

end Making

/-- Each place shows what it showed before, a new directory where nothing was, or the file that was
written, and to that the path leads. -/
structure Rewrites (d d' : Disk) (path : Path) (bytes : ByteArray) : Prop where
  working : d'.working = d.working
  sights : ∀ place, d'.sight? place = d.sight? place ∨
    d.sight? place = none ∧ d'.sight? place = some .directory ∨
    d.sight? place ≠ some .directory ∧ d'.sight? place = some (.file bytes) ∧ d'.Reaches path place

theorem Widens.rewrites (h : d.Widens d') : d.Rewrites d' path bytes :=
  ⟨h.working, fun place => (h.sights place).imp_right .inl⟩

theorem Widens.trans_rewrites {wide : Disk} (h : d.Widens wide)
    (h' : wide.Rewrites d' path bytes) : d.Rewrites d' path bytes := by
  refine ⟨h'.working.trans h.working, fun place => ?_⟩
  rcases h.sights place with hsame | ⟨hnothing, hmade⟩
  · rw [← hsame]
    exact h'.sights place
  · rcases h'.sights place with hsame' | ⟨hnothing', -⟩ | ⟨hfree, -⟩
    · exact .inr (.inl ⟨hnothing, hsame'.trans hmade⟩)
    · rw [hmade] at hnothing'
      cases hnothing'
    · exact absurd hmade hfree

theorem Rewrites.keeps (h : d.Rewrites d' path bytes) (hsight : d.sight? place = some .directory) :
    d'.sight? place = some .directory := by
  rcases h.sights place with hsame | ⟨-, hmade⟩ | ⟨hfree, -⟩
  · rw [hsame, hsight]
  · exact hmade
  · exact absurd hsight hfree

theorem surrounds_origin (h : d.sight? d.working = some .directory) (path : Path) :
    d.Surrounds (d.origin path) := by
  rw [origin]
  split
  · exact surrounds_of_sight? h
  · exact .nil

theorem sight?_origin (h : d.sight? d.working = some .directory) (path : Path) :
    d.sight? (d.origin path) = some .directory := by
  rw [origin]
  split
  · exact h
  · by_cases hworking : d.working = []
    · rwa [← hworking]
    · exact surrounds_of_sight? h [] List.nil_prefix (Ne.symm hworking)

theorem widens_makeDirectory (hworking : d.sight? d.working = some .directory) (path : Path) :
    d.Widens (d.makeDirectory path).2 := by
  rw [makeDirectory]
  split
  · exact widens_makeParts false (sight?_origin hworking path)
  · exact .refl d

theorem write_eq_ok (h : d.write path bytes = .ok d') : ∃ place, d.Reaches path place ∧
    d.sight? place ≠ some .directory ∧ d' = d.put place (.file bytes) := by
  unfold write at h
  rcases htext : checkText path.render with e | ⟨⟩
  · rw [htext] at h
    cases h
  rcases hfollow : d.follow (d.origin path) path.parts with e | place
  · rw [htext, hfollow] at h
    cases h
  refine ⟨place, hfollow, ?_⟩
  rw [htext, hfollow] at h
  rw [sight?]
  rcases hentry : d.entry? place with _ | _ | _ <;>
    simp only [bind, Except.bind, hentry, Except.ok.injEq, reduceCtorEq] at h
  all_goals exact ⟨by simp [Entry.sight], h.symm⟩

/-- One file is written, to which the path leads. All else stays as it is. -/
structure Writes (d d' : Disk) (path : Path) (bytes : ByteArray) : Prop where
  working : d'.working = d.working
  sights : ∃ place, d.Reaches path place ∧ d.sight? place ≠ some .directory ∧
    ∀ other, d'.sight? other = if other = place then some (.file bytes) else d.sight? other

/-- A write goes through directories that exist. -/
theorem writes_of_write (hworking : d.sight? d.working = some .directory)
    (h : d.write path bytes = .ok d') : d.Writes d' path bytes := by
  obtain ⟨place, hreaches, hfree, rfl⟩ := write_eq_ok h
  have haround := surrounds_of_follow (surrounds_origin hworking path) hreaches
  exact ⟨rfl, place, hreaches, hfree, sight?_put (Entry.isLeaf_file bytes) haround hfree⟩

theorem Writes.keeps {written : Path} (h : d.Writes d' written bytes)
    (hdirectory : d.sight? place = some .directory) : d'.sight? place = some .directory := by
  obtain ⟨-, other, -, hfree, hsights⟩ := h
  rw [hsights, if_neg, hdirectory]
  rintro rfl
  exact hfree hdirectory

theorem Writes.reaches {written : Path} (h : d.Writes d' written bytes)
    (hreaches : d.Reaches path place) : d'.Reaches path place := by
  rw [Reaches, origin, h.working]
  exact follow_of_keeps (fun _ => h.keeps) hreaches

theorem Writes.rewrites (h : d.Writes d' path bytes) : d.Rewrites d' path bytes := by
  have hkept {place : Place} (hreaches : d.Reaches path place) := h.reaches hreaches
  obtain ⟨hsame, place, hreaches, hfree, hsights⟩ := h
  refine ⟨hsame, fun other => ?_⟩
  rw [hsights]
  split
  · next heq => exact .inr (.inr ⟨heq ▸ hfree, rfl, heq ▸ hkept hreaches⟩)
  · exact .inl rfl

/-- What an install changes, whether or not it fails. -/
theorem rewrites_install (hworking : d.sight? d.working = some .directory) (path : Path)
    (bytes : ByteArray) : d.Rewrites (d.install path bytes).2 path bytes := by
  have hwide := widens_makeDirectory hworking path.parent
  rw [install]
  rcases hmake : d.makeDirectory path.parent with ⟨e | ⟨⟩, wide⟩
  · rw [hmake] at hwide
    exact hwide.rewrites
  rw [hmake] at hwide
  change d.Rewrites (wide.settle (wide.write path bytes)).2 path bytes
  rcases hwrite : wide.write path bytes with e | d'
  · exact hwide.rewrites
  · have hworking' : wide.sight? wide.working = some .directory := by
      rw [hwide.working]
      exact hwide.keeps hworking
    exact hwide.trans_rewrites (writes_of_write hworking' hwrite).rewrites

section Files

variable {content : ByteArray}

theorem file_of_makeParts {made : Bool}
    (h : (d.makeParts made place parts).2.sight? found = some (.file content)) :
    d.sight? found = some (.file content) := by
  fun_induction makeParts d made place parts with
  | case1 => exact h
  | case2 d made place rest ih => exact ih h
  | case3 => exact h
  | case4 d made place part rest _ _ _ ih =>
      exact (file_of_put Entry.isLeaf_empty (ih h)).resolve_right Sight.noConfusion
  | case5 d made place part rest _ _ _ _ ih => exact ih h
  | case6 => exact h

theorem file_of_makeDirectory (h : (d.makeDirectory path).2.sight? found = some (.file content)) :
    d.sight? found = some (.file content) := by
  unfold makeDirectory at h
  split at h
  · exact file_of_makeParts h
  · exact h

/-- Wherever something is installed, every file is an old one or has the new content. -/
theorem file_of_install (h : (d.install path bytes).2.sight? found = some (.file content)) :
    d.sight? found = some (.file content) ∨ content = bytes := by
  have hmade (h : (d.makeDirectory path.parent).2.sight? found = some (.file content)) :
      d.sight? found = some (.file content) := file_of_makeDirectory h
  unfold install at h
  rcases hmake : d.makeDirectory path.parent with ⟨e | ⟨⟩, wide⟩
  · rw [hmake] at h hmade
    exact .inl (hmade h)
  rw [hmake] at h hmade
  change (wide.settle (wide.write path bytes)).2.sight? found = _ at h
  rcases hwrite : wide.write path bytes with e | d'
  · rw [hwrite] at h
    exact .inl (hmade h)
  · rw [hwrite] at h
    obtain ⟨place, -, -, rfl⟩ := write_eq_ok hwrite
    rcases file_of_put (Entry.isLeaf_file bytes) h with hold | hnew
    · exact .inl (hmade hold)
    · cases hnew
      exact .inr rfl

end Files

/-- A path leads into a directory that is new, and up again. -/
def LeavesNew (d d' : Disk) (path : Path) : Prop :=
  ∃ before after place, path.parts = before ++ after ∧ ".." ∈ after ∧
    d'.follow (d'.origin path) before = .ok place ∧ d.sight? place = none ∧
    d'.sight? place = some .directory

/-- A path leads over what has changed where another path was written. -/
def Meets (d d' : Disk) (path written : Path) : Prop :=
  (∃ place, d'.Reaches path place ∧ d'.Reaches written place) ∨ d.LeavesNew d' path

namespace Rewrites

variable {written : Path}

theorem reaches (h : d.Rewrites d' written bytes) (hreaches : d.Reaches path place) :
    d'.Reaches path place := by
  rw [Reaches, origin, h.working]
  exact follow_of_keeps (fun _ => h.keeps) hreaches

/-- Other files are found as before. -/
theorem find_iff (h : d.Rewrites d' written bytes) (hapart : ¬ d.Meets d' path written)
    (content : ByteArray) :
    d'.find path = .ok (.file content) ↔ d.find path = .ok (.file content) := by
  have hother : ∀ {place}, d'.Reaches path place → ¬ d'.Reaches written place :=
    fun hreaches hwritten => hapart (.inl ⟨_, hreaches, hwritten⟩)
  rw [find_eq_file_iff, find_eq_file_iff]
  refine and_congr_right fun _ => ⟨?_, ?_⟩
  · rintro ⟨place, hreaches, hsight⟩
    have hsame : d.sight? place = d'.sight? place := by
      rcases h.sights place with hsame | ⟨-, hmade⟩ | ⟨-, -, hwritten⟩
      · exact hsame.symm
      · rw [hmade] at hsight
        cases hsight
      · exact absurd hwritten (hother hreaches)
    refine ⟨place, ?_, hsame.trans hsight⟩
    have horigin : d'.origin path = d.origin path := by
      rw [origin, origin, h.working]
    have hreaches' := hreaches
    rw [Reaches, horigin] at hreaches'
    rcases follow_or_exists_new hreaches' with
      hfollow | ⟨before, after, new, hparts, hbefore, hold, hnew, hafter⟩
    · exact hfollow
    -- below a directory that is new there was no file
    exfalso
    have hnothing : d.sight? new = none := by
      rcases h.sights new with hkept | ⟨hnothing, -⟩ | ⟨-, hfile, -⟩
      · exact absurd (hkept.symm.trans hnew) hold
      · exact hnothing
      · rw [hfile] at hnew
        cases hnew
    by_cases hup : ".." ∈ after
    · exact hapart (.inr ⟨before, after, new, hparts, hup, horigin ▸ hbefore, hnothing, hnew⟩)
    · obtain ⟨rest, rfl⟩ := prefix_of_follow hup hafter
      obtain _ | ⟨name, rest⟩ := rest
      · rw [List.append_nil, hnew] at hsight
        cases hsight
      · rw [sight?_append_of_ne hold] at hsame
        rw [← hsame] at hsight
        cases hsight
  · rintro ⟨place, hreaches, hsight⟩
    have hreaches' := h.reaches hreaches
    refine ⟨place, hreaches', ?_⟩
    rcases h.sights place with hsame | ⟨hnothing, -⟩ | ⟨-, -, hwritten⟩
    · exact hsame.trans hsight
    · rw [hnothing] at hsight
      cases hsight
    · exact absurd hwritten (hother hreaches')

end Rewrites

end Disk

end KestrelCompiler
