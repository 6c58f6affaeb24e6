import KestrelCompiler.Proofs.Config.Nearest

/-!
The search for a configuration. It looks into one directory after the other, from the place of its
start up to the root. So it comes to the deepest directory that has a configuration, or tells that
there is none, in at most as many turns as the place has components. It fails only where the file
system refuses to look.
-/

namespace KestrelCompiler.Config

variable {d : Disk} {place dir file : Place} {path : Path} {text : String}

/-- A directory has an entry with the name of a configuration. -/
def Holds (d : Disk) (dir : Place) : Prop :=
  ∃ contents e, d.entry? dir = some (.directory contents) ∧
    contents.lookup Failure.configName = some e

theorem holds_iff : Holds d dir ↔ ∃ e, d.entry? (fileAt dir) = some e := by
  rw [fileAt, Disk.entry?, Entry.at?_append]
  constructor
  · rintro ⟨contents, e, hdir, he⟩
    exact ⟨e, by rw [← Disk.entry?, hdir, Option.bind_some, Entry.at?, he]; rfl⟩
  · rintro ⟨e, h⟩
    obtain ⟨inner, hdir, hname⟩ := Option.bind_eq_some_iff.mp h
    cases inner with
    | file bytes => cases hname
    | directory contents =>
        obtain ⟨e', he, -⟩ := Option.bind_eq_some_iff.mp hname
        exact ⟨contents, e', hdir, he⟩

/-- The deepest directory at a place or above it that has a configuration. -/
structure Deepest (d : Disk) (place dir : Place) : Prop where
  above : dir <+: place
  holds : Holds d dir
  last : ∀ deeper, deeper <+: place → dir.length < deeper.length → ¬ Holds d deeper

/-- The place from which a search goes up: the directory around a file, else the place itself,
whether or not there is anything. -/
def base (d : Disk) (place : Place) : Place :=
  match d.sight? place with
  | some (.file _) => place.dropLast
  | _ => place

theorem isPrefix_base (d : Disk) (place : Place) : base d place <+: place := by
  rw [base]
  split
  · exact List.dropLast_prefix place
  · exact List.prefix_refl place

/-- The file system refuses to look at the place itself, or at the first file that a search comes
to. -/
def Refused (d : Disk) (place : Place) : Prop :=
  d.IsTooLong place ∨ d.IsTooLong (fileAt (base d place))

/-- What a search from a path has to tell. -/
inductive Finds (d : Disk) (text : String) : Except Failure Place → Prop
  | nullCharacter : '\x00' ∈ text.toList → Finds d text (.error (.disk .nullCharacter))
  | tooLong : '\x00' ∉ text.toList → Refused d (d.resolve (.ofString text)) →
    Finds d text (.error (.disk .nameTooLong))
  | found {dir : Place} : '\x00' ∉ text.toList → ¬ Refused d (d.resolve (.ofString text)) →
    Deepest d (base d (d.resolve (.ofString text))) dir → Finds d text (.ok (fileAt dir))
  | absent : '\x00' ∉ text.toList → ¬ Refused d (d.resolve (.ofString text)) →
    (∀ dir, dir <+: base d (d.resolve (.ofString text)) → ¬ Holds d dir) →
    Finds d text (.error .noConfig)

section Start

theorem any_null_iff : (Path.ofString text).parts.any (·.toList.contains '\x00') = true ↔
    '\x00' ∈ text.toList := by
  simp only [List.any_eq_true, List.contains_iff_mem]
  constructor
  · rintro ⟨part, hpart, hnull⟩
    exact Path.mem_of_mem_parts hpart hnull
  · intro hnull
    exact Path.exists_mem_parts hnull (by decide) (by decide)

theorem searchStart_of_null (h : '\x00' ∈ text.toList) :
    searchStart d (.ofString text) = .error .nullCharacter := by
  rw [searchStart, if_pos (any_null_iff.mpr h)]
  rfl

theorem searchStart_of_tooLong (hproper : (d.resolve (.ofString text)).IsProper)
    (hnull : '\x00' ∉ text.toList) (h : d.IsTooLong (d.resolve (.ofString text))) :
    searchStart d (.ofString text) = .error .nameTooLong := by
  rw [searchStart, if_neg (mt any_null_iff.mp hnull)]
  simp only [Disk.probe_of_tooLong hproper h]
  rfl

theorem searchStart_eq_base (hproper : (d.resolve (.ofString text)).IsProper)
    (hnull : '\x00' ∉ text.toList) (h : ¬ d.IsTooLong (d.resolve (.ofString text))) :
    searchStart d (.ofString text) = .ok (base d (d.resolve (.ofString text))) := by
  rw [searchStart, if_neg (mt any_null_iff.mp hnull), base, Disk.sight?]
  simp only [Disk.probe_of_not_tooLong hproper h]
  rcases d.entry? (d.resolve (.ofString text)) with _ | _ | _ <;> rfl

/-- A search goes up from its place or from right above it. -/
theorem isPrefix_searchStart {start : Place} (h : searchStart d path = .ok start) :
    start <+: d.resolve path := by
  unfold searchStart at h
  split at h
  · cases h
  · rcases hprobe : d.probe (d.resolve path) with error | found
    · simp only [hprobe] at h
      cases h
    · simp only [hprobe] at h
      rcases found with _ | _ | _ <;> cases h
      · exact List.prefix_refl _
      · exact List.dropLast_prefix _
      · exact List.prefix_refl _

end Start

section Candidates

theorem isProper_fileAt (h : dir.IsProper) : (fileAt dir).IsProper :=
  h.concat (by decide) (by decide) (by decide)

/-- The first file that a search comes to is the longest. -/
theorem tooLong_fileAt (h : d.IsTooLong (fileAt dir)) (hdir : dir <+: place) :
    d.IsTooLong (fileAt place) := by
  refine h.imp (fun hlong => ?_) fun hlong => ?_
  · exact hlong.trans_le (Place.size_render_le (hdir.sublist.append_right _))
  · -- the name of a configuration is short, so that the long one is a directory's
    exact ((hlong.of_concat (by decide)).further hdir).further (List.prefix_append _ _)

/-- Where a look tells what stands there, it misses no configuration. -/
theorem not_holds_of_probe (hlook : d.probe (fileAt dir) = .ok (d.entry? (fileAt dir)))
    (h : d.probe (fileAt dir) = .ok none) : ¬ Holds d dir := by
  rw [holds_iff]
  rintro ⟨e, he⟩
  rw [hlook, he] at h
  cases h

theorem Nearest.exists_deepest
    (hlooks : ∀ dir, dir <+: place → d.probe (fileAt dir) = .ok (d.entry? (fileAt dir)))
    (h : Nearest d place file) : ∃ dir, Deepest d place dir ∧ file = fileAt dir := by
  obtain ⟨dir, hdir, rfl, ⟨e, hheld⟩, hdeeper⟩ := h
  have hholds : Holds d dir := holds_iff.mpr ⟨e, Disk.entry?_of_probe hheld⟩
  refine ⟨dir, ⟨hdir, hholds, fun deeper hdeep hlt => ?_⟩, rfl⟩
  exact not_holds_of_probe (hlooks deeper hdeep) (hdeeper deeper hdeep hlt)

end Candidates

section Turns

theorem levels_nil : levels [] = [[]] :=
  rfl

theorem levels_concat (place : Place) (name : String) :
    levels (place ++ [name]) = (place ++ [name]) :: levels place := by
  rw [levels, List.length_append, List.length_singleton, List.range_succ, List.reverse_concat,
    List.map_cons, List.take_of_length_le (by simp), levels]
  refine congrArg _ (List.map_congr_left fun n hn => ?_)
  rw [List.mem_reverse, List.mem_range] at hn
  exact List.take_append_of_le_length (Nat.le_of_lt_succ hn)

theorem exists_levels (place : Place) : ∃ rest, levels place = place :: rest := by
  rcases List.eq_nil_or_concat place with rfl | ⟨above, name, rfl⟩
  · exact ⟨[], levels_nil⟩
  · rw [List.concat_eq_append]
    exact ⟨levels above, levels_concat above name⟩

/-- What a search does turn by turn, until it knows its result. As long as a directory has no
configuration, it goes on in the one around it; around the root there is the root itself. -/
inductive Climbs (d : Disk) : Place → Nat → Except Failure Place → Prop
  | found {place : Place} {e : Entry} : d.probe (fileAt place) = .ok (some e) →
    Climbs d place 1 (.ok (fileAt place))
  | refused {place : Place} {error : DiskError} : d.probe (fileAt place) = .error error →
    Climbs d place 1 (.error (.disk error))
  | absent {place : Place} : d.probe (fileAt place) = .ok none → place.dropLast = place →
    Climbs d place 1 (.error .noConfig)
  | up {place : Place} {turns : Nat} {result : Except Failure Place} :
    d.probe (fileAt place) = .ok none → place.dropLast ≠ place →
    Climbs d place.dropLast turns result → Climbs d place (turns + 1) result

/-- A search that is refused at its start takes no turn. -/
inductive Searches (d : Disk) (path : Path) : Nat → Except Failure Place → Prop
  | refused {error : DiskError} : searchStart d path = .error error →
    Searches d path 0 (.error (.disk error))
  | climbs {start : Place} {turns : Nat} {result : Except Failure Place} :
    searchStart d path = .ok start → Climbs d start turns result → Searches d path turns result

theorem climbs_of_error {error : DiskError} (h : d.probe (fileAt place) = .error error)
    (rest : List Place) : Climbs d place 1 (outcome (firstHeld? d (fileAt place :: rest))) := by
  rw [firstHeld?, h]
  exact .refused h

theorem climbs_of_held {e : Entry} (h : d.probe (fileAt place) = .ok (some e))
    (rest : List Place) : Climbs d place 1 (outcome (firstHeld? d (fileAt place :: rest))) := by
  rw [firstHeld?_cons_of_held h]
  exact .found h

/-- A search takes one turn for each component of a place, the root counted with its names, or
less. -/
theorem exists_climbs (d : Disk) (place : Place) :
    ∃ turns ≤ place.length + 1, Climbs d place turns (outcome (findAbove? d place)) := by
  -- a turn leaves the last name of the place behind
  induction place using List.reverseRecOn with
  | nil =>
      refine ⟨1, Nat.le_refl _, ?_⟩
      rw [findAbove?, levels_nil, List.map_singleton]
      rcases hprobe : d.probe (fileAt []) with error | _ | e
      · exact climbs_of_error hprobe []
      · rw [firstHeld?, hprobe]
        exact .absent hprobe rfl
      · exact climbs_of_held hprobe []
  | append_singleton place name ih =>
      have hlength : 1 ≤ (place ++ [name]).length + 1 := Nat.le_add_left 1 _
      rw [findAbove?, levels_concat, List.map_cons]
      rcases hprobe : d.probe (fileAt (place ++ [name])) with error | _ | e
      · exact ⟨1, hlength, climbs_of_error hprobe _⟩
      · obtain ⟨turns, hturns, hclimbs⟩ := ih
        refine ⟨turns + 1, by simpa using hturns, .up hprobe (by simp) ?_⟩
        rw [firstHeld?, hprobe, List.dropLast_concat]
        exact hclimbs
      · exact ⟨1, hlength, climbs_of_held hprobe _⟩

theorem exists_searches (d : Disk) (path : Path) :
    ∃ turns ≤ (d.resolve path).length + 1, Searches d path turns (find d path) := by
  rcases hstart : searchStart d path with error | start
  · refine ⟨0, Nat.zero_le _, ?_⟩
    rw [find_eq, hstart]
    exact .refused hstart
  · obtain ⟨turns, hturns, hclimbs⟩ := exists_climbs d start
    have hlength := (isPrefix_searchStart hstart).length_le
    rw [find_of_start hstart]
    exact ⟨turns, hturns.trans (Nat.add_le_add_right hlength 1), .climbs hstart hclimbs⟩

end Turns

section Results

/-- A search along places that can be looked at tells whether anything stands at one of them. -/
theorem exists_firstHeld? {places : List Place}
    (h : ∀ place ∈ places, ∃ found, d.probe place = .ok found) :
    ∃ found, firstHeld? d places = .ok found := by
  induction places with
  | nil => exact ⟨none, rfl⟩
  | cons place rest ih =>
      obtain ⟨⟨found, hprobe⟩, hrest⟩ := List.forall_mem_cons.mp h
      rw [firstHeld?, hprobe]
      cases found with
      | none => exact ih hrest
      | some e => exact ⟨some place, rfl⟩

variable {start : Place}

theorem find_of_tooLong (hproper : start.IsProper) (hstart : searchStart d path = .ok start)
    (h : d.IsTooLong (fileAt start)) : find d path = .error (.disk .nameTooLong) := by
  obtain ⟨rest, hlevels⟩ := exists_levels start
  rw [find_of_start hstart, findAbove?, hlevels, List.map_cons, firstHeld?,
    Disk.probe_of_tooLong (isProper_fileAt hproper) h]
  rfl

/-- The result of a search that nothing refuses. -/
theorem find_cases (hproper : start.IsProper) (hstart : searchStart d path = .ok start)
    (hshort : ¬ d.IsTooLong (fileAt start)) :
    (∃ dir, Deepest d start dir ∧ find d path = .ok (fileAt dir)) ∨
      (∀ dir, dir <+: start → ¬ Holds d dir) ∧ find d path = .error .noConfig := by
  have hlooks : ∀ dir, dir <+: start → d.probe (fileAt dir) = .ok (d.entry? (fileAt dir)) :=
    fun dir hdir => Disk.probe_of_not_tooLong (isProper_fileAt (hproper.around hdir))
      fun hlong => hshort (tooLong_fileAt hlong hdir)
  rw [find_of_start hstart]
  rcases hfound : findAbove? d start with error | _ | file
  · have hprobe : ∀ file ∈ (levels start).map fileAt, ∃ found, d.probe file = .ok found :=
      List.forall_mem_map.mpr fun dir hdir => ⟨_, hlooks dir (mem_levels_iff.mp hdir)⟩
    obtain ⟨found, hok⟩ := exists_firstHeld? hprobe
    cases hfound.symm.trans hok
  · refine .inr ⟨fun dir hdir => ?_, rfl⟩
    exact not_holds_of_probe (hlooks dir hdir) (findAbove?_eq_none_iff.mp hfound dir hdir)
  · obtain ⟨dir, hdeepest, rfl⟩ := (findAbove?_eq_some_iff.mp hfound).exists_deepest hlooks
    exact .inl ⟨dir, hdeepest, rfl⟩

/-- Every search comes to what it has to tell. -/
theorem finds_find (hworking : d.working.IsProper) (text : String) :
    Finds d text (find d (.ofString text)) := by
  -- in the order of what the file system is asked: the text, its place, the first file
  by_cases hnull : '\x00' ∈ text.toList
  · rw [find_eq, searchStart_of_null hnull]
    exact .nullCharacter hnull
  have hproper := Place.IsProper.resolve hworking hnull
  by_cases hlong : d.IsTooLong (d.resolve (.ofString text))
  · rw [find_eq, searchStart_of_tooLong hproper hnull hlong]
    exact .tooLong hnull (.inl hlong)
  have hstart := searchStart_eq_base hproper hnull hlong
  have hbase := hproper.around (isPrefix_base d _)
  by_cases hfirst : d.IsTooLong (fileAt (base d (d.resolve (.ofString text))))
  · rw [find_of_tooLong hbase hstart hfirst]
    exact .tooLong hnull (.inr hfirst)
  have hlooks : ¬ Refused d (d.resolve (.ofString text)) := not_or.mpr ⟨hlong, hfirst⟩
  rcases find_cases hbase hstart hfirst with ⟨dir, hdeepest, hfind⟩ | ⟨hnone, hfind⟩
  · rw [hfind]
    exact .found hnull hlooks hdeepest
  · rw [hfind]
    exact .absent hnull hlooks hnone

theorem Deepest.unique {other : Place} (h : Deepest d place dir) (h' : Deepest d place other) :
    dir = other := by
  have hlength : dir.length = other.length :=
    Nat.le_antisymm (Nat.le_of_not_lt fun hlt => h'.last dir h.above hlt h.holds)
      (Nat.le_of_not_lt fun hlt => h.last other h'.above hlt h'.holds)
  exact (List.prefix_of_prefix_length_le h.above h'.above hlength.le).eq_of_length hlength

/-- No search has two results to tell. -/
theorem Finds.unique {result other : Except Failure Place} (h : Finds d text result)
    (h' : Finds d text other) : result = other := by
  cases h with
  | nullCharacter hnull =>
      cases h' with
      | nullCharacter => rfl
      | tooLong hfree | found hfree | absent hfree => exact absurd hnull hfree
  | tooLong hfree hrefused =>
      cases h' with
      | nullCharacter hnull => exact absurd hnull hfree
      | tooLong => rfl
      | found _ hlooks | absent _ hlooks => exact absurd hrefused hlooks
  | found hfree hlooks hdeepest =>
      cases h' with
      | nullCharacter hnull => exact absurd hnull hfree
      | tooLong _ hrefused => exact absurd hrefused hlooks
      | found _ _ hother => rw [hdeepest.unique hother]
      | absent _ _ hnone => exact absurd hdeepest.holds (hnone _ hdeepest.above)
  | absent hfree hlooks hnone =>
      cases h' with
      | nullCharacter hnull => exact absurd hnull hfree
      | tooLong _ hrefused => exact absurd hrefused hlooks
      | found _ _ hdeepest => exact absurd hdeepest.holds (hnone _ hdeepest.above)
      | absent => rfl

theorem find_iff (hworking : d.working.IsProper) {result : Except Failure Place} :
    find d (.ofString text) = result ↔ Finds d text result :=
  ⟨fun h => h ▸ finds_find hworking text, (finds_find hworking text).unique⟩

end Results

end KestrelCompiler.Config
