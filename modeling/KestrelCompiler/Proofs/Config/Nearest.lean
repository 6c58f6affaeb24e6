import KestrelCompiler.Config
import KestrelCompiler.Proofs.Disk.Probing

/-!
The configuration that governs a source file. It is read from the file `kestrel.toml` that stands
the deepest at or above the place of the source. Where there is none, every setting has its default.
-/

namespace KestrelCompiler

namespace Config

variable {d : Disk} {place file : Place} {path : Path} {config : Config}

section Levels

/-- The directories at and above a place are its initial parts. -/
theorem mem_levels_iff {dir : Place} : dir ∈ levels place ↔ dir <+: place := by
  simp only [levels, List.mem_map, List.mem_reverse, List.mem_range]
  constructor
  · rintro ⟨n, -, rfl⟩
    exact List.take_prefix n place
  · intro h
    exact ⟨dir.length, Nat.lt_succ_of_le h.length_le, (List.prefix_iff_eq_take.mp h).symm⟩

/-- The deepest directory comes first. -/
theorem levels_descending (place : Place) :
    (levels place).Pairwise fun deep high => high.length < deep.length := by
  rw [levels, List.pairwise_map, List.pairwise_reverse]
  refine List.pairwise_lt_range.imp_of_mem fun {a b} ha hb hlt => ?_
  rw [List.mem_range] at ha hb
  simp only [List.length_take]
  omega

end Levels

section Search

/-- What stands at a place, when it is the first of some places where anything does. -/
theorem firstHeld?_eq_some {places : List Place} (h : firstHeld? d places = .ok (some file)) :
    ∃ before after, places = before ++ file :: after ∧
      (∀ place ∈ before, d.probe place = .ok none) ∧ ∃ e, d.probe file = .ok (some e) := by
  induction places with
  | nil => cases h
  | cons place rest ih =>
      rw [firstHeld?] at h
      rcases hprobe : d.probe place with error | _ | e
      · rw [hprobe] at h
        cases h
      · rw [hprobe] at h
        obtain ⟨before, after, rfl, hnone, hfound⟩ := ih h
        exact ⟨place :: before, after, rfl, List.forall_mem_cons.mpr ⟨hprobe, hnone⟩, hfound⟩
      · rw [hprobe] at h
        cases h
        exact ⟨[], rest, rfl, nofun, e, hprobe⟩

theorem firstHeld?_append {before places : List Place}
    (h : ∀ place ∈ before, d.probe place = .ok none) :
    firstHeld? d (before ++ places) = firstHeld? d places := by
  induction before with
  | nil => rfl
  | cons place rest ih =>
      obtain ⟨hplace, hrest⟩ := List.forall_mem_cons.mp h
      rw [List.cons_append, firstHeld?, hplace]
      exact ih hrest

theorem firstHeld?_cons_of_held {e : Entry} (h : d.probe file = .ok (some e)) (rest : List Place) :
    firstHeld? d (file :: rest) = .ok (some file) := by
  rw [firstHeld?, h]
  rfl

theorem firstHeld?_eq_none_iff {places : List Place} :
    firstHeld? d places = .ok none ↔ ∀ place ∈ places, d.probe place = .ok none := by
  constructor
  · intro h
    induction places with
    | nil => exact fun _ hmem => absurd hmem List.not_mem_nil
    | cons place rest ih =>
        rw [firstHeld?] at h
        rcases hprobe : d.probe place with error | _ | e
        · rw [hprobe] at h
          cases h
        · rw [hprobe] at h
          exact List.forall_mem_cons.mpr ⟨hprobe, ih h⟩
        · rw [hprobe] at h
          cases h
  · intro h
    rw [← List.append_nil places, firstHeld?_append h]
    rfl

end Search

/-- The configuration file that stands the deepest at or above a place. -/
def Nearest (d : Disk) (place file : Place) : Prop :=
  ∃ dir, dir <+: place ∧ file = fileAt dir ∧ (∃ e, d.probe file = .ok (some e)) ∧
    ∀ deeper, deeper <+: place → dir.length < deeper.length → d.probe (fileAt deeper) = .ok none

theorem Nearest.exists_entry (h : Nearest d place file) : ∃ e, d.entry? file = some e := by
  obtain ⟨-, -, -, ⟨e, hheld⟩, -⟩ := h
  exact ⟨e, Disk.entry?_of_probe hheld⟩

theorem findAbove?_eq_some_iff : findAbove? d place = .ok (some file) ↔ Nearest d place file := by
  constructor
  · intro h
    obtain ⟨before, after, hsplit, hnone, hfound⟩ := firstHeld?_eq_some h
    obtain ⟨deeper, higher, hlevels, rfl, hhigher⟩ := List.map_eq_append_iff.mp hsplit
    obtain ⟨dir, others, rfl, rfl, -⟩ := List.map_eq_cons_iff.mp hhigher
    have hdescending := levels_descending place
    rw [hlevels] at hdescending
    have hdir : dir ∈ levels place := by
      rw [hlevels]
      exact List.mem_append_right _ List.mem_cons_self
    refine ⟨dir, mem_levels_iff.mp hdir, rfl, hfound, fun inner hinner hlt => ?_⟩
    have hmem := mem_levels_iff.mpr hinner
    rw [hlevels, List.mem_append, List.mem_cons] at hmem
    -- what comes after the directory lies above it
    rcases hmem with hmem | rfl | hmem
    · exact hnone _ (List.mem_map_of_mem hmem)
    · exact absurd hlt (Nat.lt_irrefl _)
    · have habove := (List.pairwise_append.mp hdescending).2.1
      exact absurd hlt (Nat.lt_asymm (List.rel_of_pairwise_cons habove hmem))
  · rintro ⟨dir, hdir, rfl, ⟨e, hfound⟩, hdeeper⟩
    obtain ⟨before, after, hlevels⟩ := List.append_of_mem (mem_levels_iff.mpr hdir)
    have hdescending := levels_descending place
    rw [hlevels] at hdescending
    rw [findAbove?, hlevels, List.map_append, List.map_cons, firstHeld?_append,
      firstHeld?_cons_of_held hfound]
    intro other hother
    obtain ⟨inner, hinner, rfl⟩ := List.mem_map.mp hother
    refine hdeeper inner (mem_levels_iff.mp ?_) ?_
    · rw [hlevels]
      exact List.mem_append_left _ hinner
    · exact (List.pairwise_append.mp hdescending).2.2 inner hinner dir List.mem_cons_self

theorem findAbove?_eq_none_iff :
    findAbove? d place = .ok none ↔ ∀ dir, dir <+: place → d.probe (fileAt dir) = .ok none := by
  rw [findAbove?, firstHeld?_eq_none_iff, List.forall_mem_map]
  exact forall_congr' fun dir => by rw [mem_levels_iff]

/-- The configuration that the nearest configuration file holds, or the default one where there is
no such file. The search starts at the source file's directory. -/
inductive Governs (d : Disk) (path : Path) : Config → Prop
  | loaded {start file : Place} {bytes : ByteArray} {config : Config} :
    searchStart d path = .ok start → Nearest d start file →
    d.entry? file = some (.file bytes) → ofBytes file.render bytes = .ok config →
    Governs d path config
  | defaults {start : Place} :
    searchStart d path = .ok start → (∀ dir, dir <+: start → d.probe (fileAt dir) = .ok none) →
    Governs d path {}

/-- What a search comes to from what it has found. -/
def outcome (found : Except DiskError (Option Place)) : Except Failure Place :=
  Failure.ofDisk found >>= fun found => found.elim (.error .noConfig) .ok

theorem find_eq (d : Disk) (path : Path) :
    find d path = outcome (searchStart d path >>= findAbove? d) := by
  rw [find, outcome]
  generalize Failure.ofDisk (searchStart d path >>= findAbove? d) = found
  rcases found with e | _ | file <;> rfl

theorem find_of_start {start : Place} (h : searchStart d path = .ok start) :
    find d path = outcome (findAbove? d start) := by
  rw [find_eq, h]
  rfl

theorem governing_of_find {file : Place} {bytes : ByteArray} (h : find d path = .ok file)
    (hentry : d.entry? file = some (.file bytes)) : governing d path =
      (ofBytes file.render bytes).map fun config =>
        (config, .loaded file.render config.name) := by
  rw [governing, h]
  dsimp only
  rw [hentry]

theorem governs_iff :
    Governs d path config ↔ ∃ origin, governing d path = .ok (config, origin) := by
  constructor
  · intro h
    cases h with
    | loaded hstart hnearest hentry hbytes =>
        have hfind := find_of_start hstart
        rw [findAbove?_eq_some_iff.mpr hnearest] at hfind
        rw [governing_of_find hfind hentry, hbytes]
        exact ⟨_, rfl⟩
    | defaults hstart hnone =>
        rw [governing, find_of_start hstart, findAbove?_eq_none_iff.mpr hnone]
        exact ⟨.defaults, rfl⟩
  · rintro ⟨origin, h⟩
    rcases hstart : searchStart d path with e | start
    · rw [governing, find_eq, hstart] at h
      cases h
    have hfind := find_of_start hstart
    rcases hfound : findAbove? d start with e | _ | file
    · rw [governing, hfind, hfound] at h
      cases h
    · rw [governing, hfind, hfound] at h
      cases h
      exact .defaults hstart (findAbove?_eq_none_iff.mp hfound)
    · rw [hfound] at hfind
      have hnearest := findAbove?_eq_some_iff.mp hfound
      obtain ⟨e, hentry⟩ := hnearest.exists_entry
      cases e with
      | file bytes =>
          rw [governing_of_find hfind hentry] at h
          rcases hbytes : ofBytes file.render bytes with e | config'
          · rw [hbytes] at h
            cases h
          · rw [hbytes] at h
            cases h
            exact .loaded hstart hnearest hentry hbytes
      | directory contents =>
          rw [governing, hfind] at h
          simp only [outcome, Failure.ofDisk, bind, Except.bind, Option.elim_some, hentry] at h
          cases h

theorem Governs.unique {other : Config} (h : Governs d path config) (h' : Governs d path other) :
    config = other := by
  obtain ⟨origin, hconfig⟩ := governs_iff.mp h
  obtain ⟨origin', hother⟩ := governs_iff.mp h'
  cases hconfig.symm.trans hother
  rfl

end Config

end KestrelCompiler
