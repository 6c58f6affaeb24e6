import KestrelCompiler.Proofs.Config.Search

/-!
What governs a source file. The configuration that a search finds is loaded from its file, and
whatever is wrong with that file is told as it is. Only where a search tells that there is no
configuration, every setting has its default.
-/

namespace KestrelCompiler

open Toml (Value Table)

/-- The values that say how wide integers are. -/
inductive IntWidth.Of : Value → IntWidth → Prop
  | bits {count : Nat} : 0 < count → Of (.integer count) (.bits count)
  | one : Of (.boolean true) .one

theorem IntWidth.ofValue?_eq_some_iff {value : Value} {width : IntWidth} :
    ofValue? value = some width ↔ Of value width := by
  constructor
  · intro h
    unfold ofValue? at h
    split at h
    · next n =>
        split at h
        · next hpositive =>
            cases h
            obtain ⟨count, rfl⟩ := Int.eq_ofNat_of_zero_le hpositive.le
            exact .bits (Int.natCast_pos.mp hpositive)
        · cases h
    · cases h
      exact .one
    · cases h
  · rintro (hpositive | _)
    · rw [ofValue?, if_pos (Int.natCast_pos.mpr hpositive), Int.toNat_natCast]
    · rfl

theorem IntWidth.Of.one_le_size {value : Value} {width : IntWidth} (h : Of value width) :
    1 ≤ width.size := by
  cases h with
  | bits hpositive => exact hpositive
  | one => exact Nat.le_refl 1

namespace Config

variable {d : Disk} {file : Place} {path : Path} {text : String} {table : Table} {name : String}

/-- A section is a table, or it is left out. -/
def IsSection (table : Table) (name : String) : Prop :=
  ∀ value, table.lookup name = some value → ∃ entries, value = .table entries

/-- What stands in a section. -/
def entries? (table : Table) (name : String) : Option Table :=
  match table.lookup name with
  | some (.table entries) => some entries
  | _ => none

/-- What a section says about a setting. -/
def setting? (table : Table) (sectionName name : String) : Option Value :=
  (entries? table sectionName).bind (·.lookup name)

theorem section?_of_isSection (h : IsSection table name) : section? table name =
    .ok (entries? table name) := by
  rw [section?, entries?]
  rcases hlookup : table.lookup name with _ | value
  · rfl
  · obtain ⟨entries, rfl⟩ := h value hlookup
    rfl

theorem section?_of_not_isSection (h : ¬ IsSection table name) : section? table name =
    .error .notTable := by
  rw [section?]
  split
  · next hnone => exact absurd (fun value hvalue => by rw [hnone] at hvalue; cases hvalue) h
  · next entries htable =>
      refine absurd (fun value hvalue => ⟨entries, ?_⟩) h
      exact Option.some.inj (hvalue.symm.trans htable)
  · rfl

/-- What a table says about the width of integers, 64 bits unless it says anything. -/
def widthValue (table : Table) : Value :=
  (setting? table "build" "int_width").getD (.integer 64)

/-- The settings of a table, with the width of integers. What the table leaves out has its
default. -/
def ofSettings (table : Table) (width : IntWidth) : Config where
  name := (setting? table "package" "name").getD (.string "untitled")
  version := (setting? table "package" "version").getD (.string "0.0.0")
  targetTriple := (setting? table "build" "target_triple").getD (.string "")
  intWidth := width

theorem ofTable_eq {path : String} (hpackage : IsSection table "package")
    (hbuild : IsSection table "build") : ofTable path table =
      (IntWidth.ofValue? (widthValue table)).elim (.error (.invalidWidth path)) fun width =>
        .ok (ofSettings table width) := by
  rw [ofTable, section?_of_isSection hpackage, section?_of_isSection hbuild, widthValue]
  simp only [ofSettings, setting?]
  rcases entries? table "package" with _ | package <;>
    rcases entries? table "build" with _ | build
  · rfl
  · simp only [bind, Except.bind, pure, Except.pure, Option.bind]
    cases IntWidth.ofValue? ((build.lookup "int_width").getD (.integer 64)) <;> rfl
  · rfl
  · simp only [bind, Except.bind, pure, Except.pure, Option.bind]
    cases IntWidth.ofValue? ((build.lookup "int_width").getD (.integer 64)) <;> rfl

/-- What the table of a configuration file comes to. -/
inductive Reads (path : String) (table : Table) : Except Failure Config → Prop
  | notTable : ¬ (IsSection table "package" ∧ IsSection table "build") →
    Reads path table (.error .notTable)
  | invalidWidth : IsSection table "package" → IsSection table "build" →
    (∀ width, ¬ IntWidth.Of (widthValue table) width) →
    Reads path table (.error (.invalidWidth path))
  | config {width : IntWidth} : IsSection table "package" → IsSection table "build" →
    IntWidth.Of (widthValue table) width → Reads path table (.ok (ofSettings table width))

theorem reads_ofTable (path : String) (table : Table) : Reads path table (ofTable path table) := by
  by_cases hpackage : IsSection table "package"
  · by_cases hbuild : IsSection table "build"
    · rw [ofTable_eq hpackage hbuild]
      rcases hwidth : IntWidth.ofValue? (widthValue table) with _ | width
      · refine .invalidWidth hpackage hbuild fun width hof => ?_
        cases hwidth.symm.trans (IntWidth.ofValue?_eq_some_iff.mpr hof)
      · exact .config hpackage hbuild (IntWidth.ofValue?_eq_some_iff.mp hwidth)
    · rw [ofTable, section?_of_isSection hpackage, section?_of_not_isSection hbuild]
      cases entries? table "package" <;> exact .notTable fun h => hbuild h.2
  · rw [ofTable, section?_of_not_isSection hpackage]
    exact .notTable fun h => hpackage h.1

/-- What a configuration file comes to, or what stands in its place. -/
inductive Loads (path : String) : Entry → Except Failure Config → Prop
  | directory {contents : List (String × Entry)} :
    Loads path (.directory contents) (.error (.disk .isDirectory))
  | encoding {bytes : ByteArray} : String.fromUTF8? bytes = none →
    Loads path (.file bytes) (.error .encoding)
  | malformed {bytes : ByteArray} {text : String} : String.fromUTF8? bytes = some text →
    Toml.parse text = .error .malformed → Loads path (.file bytes) (.error .malformedConfig)
  | unreadable {bytes : ByteArray} {text : String} {digits : Nat} :
    String.fromUTF8? bytes = some text → Toml.parse text = .error (.longInteger digits) →
    Loads path (.file bytes) (.error (.unreadableInteger digits))
  | table {bytes : ByteArray} {text : String} {table : Table} {result : Except Failure Config} :
    String.fromUTF8? bytes = some text → Toml.parse text = .ok table →
    Reads path table result → Loads path (.file bytes) result

theorem loads_ofBytes (path : String) (bytes : ByteArray) :
    Loads path (.file bytes) (ofBytes path bytes) := by
  rw [ofBytes, Failure.decode]
  rcases htext : String.fromUTF8? bytes with _ | text
  · exact .encoding htext
  · simp only [bind, Except.bind]
    rcases hparse : Toml.parse text with error | table
    · cases error with
      | malformed => exact .malformed htext hparse
      | longInteger digits => exact .unreadable htext hparse
    · exact .table htext hparse (reads_ofTable path table)

/-- What is loaded from the place of an entry. -/
theorem loads_load {e : Entry} (h : d.find file.path = .ok e) :
    Loads file.render e (load d file.path) := by
  rw [load, Disk.read, h]
  cases e with
  | file bytes => exact loads_ofBytes file.render bytes
  | directory contents => exact .directory

theorem Loads.one_le_size {e : Entry} {shown : String} {config : Config}
    (h : Loads shown e (.ok config)) : 1 ≤ config.intWidth.size := by
  cases h with
  | table _ _ hreads =>
      cases hreads with
      | config _ _ hwidth => exact hwidth.one_le_size

/-- What a search finds can be loaded from. -/
theorem Finds.exists_entry (hworking : d.working.IsProper) (h : Finds d text (.ok file)) :
    ∃ e, d.entry? file = some e ∧ d.find file.path = .ok e := by
  cases h with
  | found hnull hlooks hdeepest =>
      obtain ⟨e, he⟩ := holds_iff.mp hdeepest.holds
      have hbase := (Place.IsProper.resolve hworking hnull).around (isPrefix_base d _)
      refine ⟨e, he, Disk.find_path (isProper_fileAt (hbase.around hdeepest.above)) ?_ he⟩
      exact fun hlong => hlooks (.inr (tooLong_fileAt hlong hdeepest.above))

theorem governing_of_found {e : Entry} (hfind : find d path = .ok file)
    (hentry : d.entry? file = some e) (he : d.find file.path = .ok e) :
    (governing d path).map Prod.fst = load d file.path := by
  rw [load, Disk.read, he]
  cases e with
  | file bytes =>
      rw [governing_of_find hfind hentry]
      change ((ofBytes file.render bytes).map _).map Prod.fst = ofBytes file.render bytes
      cases ofBytes file.render bytes <;> rfl
  | directory contents =>
      rw [governing, hfind]
      dsimp only
      rw [hentry]
      rfl

theorem governing_of_absent (h : find d path = .error .noConfig) :
    governing d path = .ok ({}, .defaults) := by
  rw [governing, h]

theorem governing_of_error {failure : Failure} (h : find d path = .error failure)
    (hfailure : failure ≠ .noConfig) : governing d path = .error failure := by
  rw [governing, h]
  cases failure with
  | noConfig => exact absurd rfl hfailure
  | _ => rfl

/-- The nearest configuration governs. A search finds the configuration file of the deepest
directory at or above its start that has one, tells that there is none only where there is none, and
is refused only where the file system refuses to look. It takes no more turns than the place of its
start has components, the root counted with the names. What it finds is loaded, with every failure
of that passed on; where there is nothing, the defaults hold. Integers have at least one bit. -/
theorem nearest_governs {d : Disk} (hworking : d.working.IsProper) (text : String) :
    (∀ result, find d (.ofString text) = result ↔ Finds d text result) ∧
    (∃ turns ≤ (d.resolve (.ofString text)).length + 1,
      Searches d (.ofString text) turns (find d (.ofString text))) ∧
    (∀ file, find d (.ofString text) = .ok file → ∃ e, d.entry? file = some e ∧
      Loads file.render e (load d file.path) ∧
      (governing d (.ofString text)).map Prod.fst = load d file.path) ∧
    (find d (.ofString text) = .error .noConfig →
      governing d (.ofString text) = .ok ({}, .defaults)) ∧
    (∀ failure, find d (.ofString text) = .error failure → failure ≠ .noConfig →
      governing d (.ofString text) = .error failure) ∧
    ∀ config origin, governing d (.ofString text) = .ok (config, origin) →
      1 ≤ config.intWidth.size := by
  have hfound : ∀ file, find d (.ofString text) = .ok file → ∃ e, d.entry? file = some e ∧
      Loads file.render e (load d file.path) ∧
      (governing d (.ofString text)).map Prod.fst = load d file.path := by
    intro file hfind
    obtain ⟨e, hentry, he⟩ := ((find_iff hworking).mp hfind).exists_entry hworking
    exact ⟨e, hentry, loads_load he, governing_of_found hfind hentry he⟩
  refine ⟨fun _ => find_iff hworking, exists_searches d _, hfound, governing_of_absent,
    fun failure => governing_of_error, fun config origin hgoverns => ?_⟩
  rcases hfind : find d (.ofString text) with failure | file
  · by_cases hfailure : failure = .noConfig
    · subst hfailure
      cases hgoverns.symm.trans (governing_of_absent hfind)
      decide
    · cases hgoverns.symm.trans (governing_of_error hfind hfailure)
  · obtain ⟨e, -, hloads, hload⟩ := hfound file hfind
    rw [hgoverns] at hload
    rw [← hload] at hloads
    exact hloads.one_le_size

/-- A source file two directories below a configuration. -/
def workshop : Disk where
  working := ["home", "project"]
  root := .directory [("home", .directory [
    ("kestrel.toml", .file "[build]\nint_width = 8\n".toUTF8),
    ("project", .directory [("src", .directory [("a.kst", .file "f () { }".toUTF8)])])])]

theorem nearest_governs_above :
    workshop.working.IsProper ∧
    find workshop (.ofString "src/a.kst") = .ok ["home", "kestrel.toml"] ∧
    Finds workshop "src/a.kst" (.ok ["home", "kestrel.toml"]) ∧
    (governing workshop (.ofString "src/a.kst")).map Prod.fst =
      load workshop (Place.path ["home", "kestrel.toml"]) ∧
    (governing workshop (.ofString "src/a.kst")).toOption.map (·.1.intWidth) = some (.bits 8) := by
  have hworking : workshop.working.IsProper := by decide
  have hfind : find workshop (.ofString "src/a.kst") = .ok ["home", "kestrel.toml"] := rfl
  obtain ⟨hfinds, -, hfound, -⟩ := nearest_governs hworking "src/a.kst"
  obtain ⟨e, -, -, hload⟩ := hfound _ hfind
  exact ⟨hworking, hfind, (hfinds _).mp hfind, hload, by decide +kernel⟩

/-- A disk with a configuration at its root and nothing else. -/
def bareDisk : Disk where
  working := []
  root := .directory [("kestrel.toml", .file "".toUTF8)]

/-- One byte more than a name may have. -/
def longName : String :=
  String.ofList (List.replicate (Path.maxPartBytes + 1) 'a')

/-- From a name that is too long no search comes to the configuration above it. -/
theorem long_name_refused :
    Deepest bareDisk (base bareDisk (bareDisk.resolve (.ofString longName))) [] ∧
    find bareDisk (.ofString longName) = .error (.disk .nameTooLong) := by
  have hchars : longName.toList = List.replicate 256 'a' := String.toList_ofList
  have hparts : (Path.ofString longName).parts = [longName] :=
    Path.parts_of_not_mem (by rw [hchars]; decide) (by decide +kernel)
  have hresolve : bareDisk.resolve (.ofString longName) = [longName] := by
    have horigin : bareDisk.origin (.ofString longName) = [] := by
      rw [Disk.origin]
      split <;> rfl
    rw [Disk.resolve, hparts, horigin]
    decide +kernel
  have hbase : base bareDisk [longName] = [longName] := by decide +kernel
  have hlong : bareDisk.root.MeetsLong [longName] :=
    ⟨[], longName, [], rfl, rfl, by decide +kernel⟩
  have hnothing : (bareDisk.entry? (fileAt [longName])).isNone = true := by decide +kernel
  -- the root has the only configuration, and the file system does not get as far as to look for it
  refine ⟨?_, (find_iff (by decide)).mpr (.tooLong (by rw [hchars]; decide) ?_)⟩
  · rw [hresolve, hbase]
    refine ⟨List.nil_prefix, ⟨_, _, rfl, rfl⟩, fun deeper hdeeper hlt hholds => ?_⟩
    obtain rfl := hdeeper.eq_of_length_le (Nat.succ_le_of_lt hlt)
    obtain ⟨e, he⟩ := holds_iff.mp hholds
    rw [he] at hnothing
    cases hnothing
  · rw [hresolve]
    exact .inl (.inr hlong)

end Config

end KestrelCompiler
