import KestrelCompiler.Proofs.Disk.Writing
import Mathlib.Data.String.Basic

/-!
Texts and the paths that they are read as. A path leaves out what means nothing in its text, so that
whatever a text names is found by its path as well.
-/

namespace List

variable {α : Type}

theorem intercalate_sublist_cons (sep first : List α) (rest : List (List α)) :
    (sep.intercalate rest).Sublist (sep.intercalate (first :: rest)) := by
  by_cases hrest : rest = []
  · subst hrest
    exact nil_sublist _
  · rw [intercalate_cons_of_ne_nil hrest]
    exact sublist_append_right _ _

theorem Sublist.intercalate {l l' : List (List α)} (h : l.Sublist l') (sep : List α) :
    (sep.intercalate l).Sublist (sep.intercalate l') := by
  induction h with
  | slnil => exact .refl _
  | cons first _ ih => exact ih.trans (intercalate_sublist_cons sep first _)
  | @cons_cons rest rest' first h ih =>
      by_cases hrest : rest = []
      · subst hrest
        by_cases hrest' : rest' = []
        · rw [hrest']
        · rw [intercalate_singleton, intercalate_cons_of_ne_nil hrest', append_assoc]
          exact sublist_append_left _ _
      · have hrest' : rest' ≠ [] := by
          rintro rfl
          exact hrest (sublist_nil.mp h)
        rw [intercalate_cons_of_ne_nil hrest, intercalate_cons_of_ne_nil hrest']
        exact ih.append_left _

theorem mem_intercalate {c : α} {sep : List α} {l : List (List α)} (h : c ∈ sep.intercalate l) :
    c ∈ sep ∨ ∃ part ∈ l, c ∈ part := by
  induction l with
  | nil => cases h
  | cons first rest ih =>
      by_cases hrest : rest = []
      · rw [hrest, intercalate_singleton] at h
        exact .inr ⟨first, mem_cons_self, h⟩
      · rw [intercalate_cons_of_ne_nil hrest, mem_append, mem_append] at h
        rcases h with (hfirst | hsep) | hrest
        · exact .inr ⟨first, mem_cons_self, hfirst⟩
        · exact .inl hsep
        · exact (ih hrest).imp_right fun ⟨part, hpart, hc⟩ => ⟨part, mem_cons_of_mem _ hpart, hc⟩

theorem exists_mem_splitOn [DecidableEq α] {c sep : α} {l : List α} (h : c ∈ l) (hne : c ≠ sep) :
    ∃ part ∈ l.splitOn sep, c ∈ part := by
  induction l with
  | nil => cases h
  | cons first rest ih =>
      rw [splitOn_cons_eq_if_modifyHead]
      split
      · next hsep =>
          obtain rfl : first = sep := by simpa using hsep
          obtain ⟨part, hpart, hc⟩ := ih ((mem_cons.mp h).resolve_left hne)
          exact ⟨part, mem_cons_of_mem _ hpart, hc⟩
      · obtain ⟨head, others, hsplit⟩ := exists_cons_of_ne_nil (splitOn_ne_nil sep rest)
        rw [hsplit] at ih ⊢
        rw [modifyHead_cons]
        rcases mem_cons.mp h with rfl | hrest
        · exact ⟨_, mem_cons_self, mem_cons_self⟩
        · obtain ⟨part, hpart, hc⟩ := ih hrest
          rcases mem_cons.mp hpart with rfl | hpart
          · exact ⟨_, mem_cons_self, mem_cons_of_mem _ hc⟩
          · exact ⟨part, mem_cons_of_mem _ hpart, hc⟩

end List

namespace KestrelCompiler

namespace Path

/-- A part that leads somewhere. -/
def isProper (part : String) : Bool :=
  part ≠ "" && part ≠ "."

theorem parts_ofString (text : String) :
    (ofString text).parts = (splitSlashes text).filter isProper :=
  rfl

/-- A text without slashes is a part of its own. -/
theorem parts_of_not_mem {text : String} (h : '/' ∉ text.toList) (hproper : isProper text = true) :
    (ofString text).parts = [text] := by
  rw [parts_ofString, splitSlashes, List.splitOn_eq_singleton h, List.map_singleton,
    String.ofList_toList, List.filter_cons_of_pos hproper, List.filter_nil]

theorem map_toList_parts (text : String) : (ofString text).parts.map String.toList =
    (text.toList.splitOn '/').filter fun part => isProper (String.ofList part) := by
  rw [parts_ofString, splitSlashes, List.filter_map, List.map_map]
  exact (List.map_congr_left fun _ _ => String.toList_ofList).trans (List.map_id _)

/-- Without the slashes at its start, a text holds the parts of its path with slashes between. -/
theorem intercalate_sublist_dropWhile (chars : List Char) :
    (['/'].intercalate ((chars.splitOn '/').filter fun part =>
      isProper (String.ofList part))).Sublist (chars.dropWhile (· = '/')) := by
  induction chars with
  | nil => exact .refl _
  | cons c rest ih =>
      by_cases hslash : c = '/'
      · subst hslash
        rw [List.splitOn_cons_eq_if_modifyHead, if_pos (beq_self_eq_true _)]
        exact ih
      · rw [List.dropWhile_cons_of_neg (by simpa using hslash)]
        have hall := List.filter_sublist.intercalate ['/']
          (l := ((c :: rest).splitOn '/').filter fun part => isProper (String.ofList part))
        rwa [List.intercalate_splitOn] at hall

theorem rootOf_sublist (text : String) :
    (rootOf text).toList.Sublist (text.toList.takeWhile (· = '/')) := by
  have hslashes : text.toList.takeWhile (· = '/') =
      List.replicate (text.toList.takeWhile (· = '/')).length '/' :=
    List.eq_replicate_of_mem fun c hc => by
      simpa using List.all_eq_true.mp (List.all_takeWhile (p := (· = '/'))) c hc
  rw [hslashes, rootOf]
  generalize (text.toList.takeWhile (· = '/')).length = n
  split
  · exact List.nil_sublist _
  · exact .refl _
  · next hzero _ =>
      change (List.replicate 1 '/').Sublist _
      exact (List.replicate_sublist_replicate '/').mpr (Nat.one_le_iff_ne_zero.mpr hzero)

/-- The text of a path is what its text was read from, with some characters left out, unless nothing
is left. -/
theorem render_ofString (text : String) :
    (ofString text).render = "." ∨ (ofString text).render.toList.Sublist text.toList := by
  rw [render]
  split
  · exact .inl rfl
  · refine .inr ?_
    have hparts := intercalate_sublist_dropWhile text.toList
    rw [← map_toList_parts] at hparts
    have hwhole := (rootOf_sublist text).append hparts
    rw [List.takeWhile_append_dropWhile] at hwhole
    rwa [String.toList_append, String.toList_intercalate]

/-- Every character of a text but slashes and points stands in a part of its path. -/
theorem exists_mem_parts {text : String} {c : Char} (h : c ∈ text.toList) (hslash : c ≠ '/')
    (hpoint : c ≠ '.') : ∃ part ∈ (ofString text).parts, c ∈ part.toList := by
  obtain ⟨part, hpart, hc⟩ := List.exists_mem_splitOn h hslash
  have hproper : isProper (String.ofList part) = true := by
    rw [isProper, Bool.and_eq_true, decide_eq_true_eq, decide_eq_true_eq]
    constructor <;>
      (intro hsame
       have hpart := congrArg String.toList hsame
       rw [String.toList_ofList] at hpart
       subst hpart)
    · cases hc
    · exact hpoint (List.mem_singleton.mp hc)
  have hmem : part ∈ (ofString text).parts.map String.toList := by
    rw [map_toList_parts]
    exact List.mem_filter.mpr ⟨hpart, hproper⟩
  obtain ⟨text, htext, rfl⟩ := List.mem_map.mp hmem
  exact ⟨text, htext, hc⟩

/-- The parts of a path are pieces of its text. -/
theorem mem_of_mem_parts {text part : String} {c : Char} (h : part ∈ (ofString text).parts)
    (hc : c ∈ part.toList) : c ∈ text.toList := by
  have hmem := List.mem_map_of_mem (f := String.toList) h
  rw [map_toList_parts] at hmem
  have hpiece := (List.singleton_sublist.mpr (List.mem_filter.mp hmem).1).intercalate ['/']
  rw [List.intercalate_singleton, List.intercalate_splitOn] at hpiece
  exact hpiece.subset hc

/-- Only slashes and points are left out. -/
theorem mem_render_of_mem {text : String} {c : Char} (h : c ∈ text.toList) (hslash : c ≠ '/')
    (hpoint : c ≠ '.') : c ∈ (ofString text).render.toList := by
  obtain ⟨part, hmem, hc⟩ := exists_mem_parts h hslash hpoint
  have hparts : (ofString text).parts.isEmpty = false := by
    cases hempty : (ofString text).parts with
    | nil =>
        rw [hempty] at hmem
        cases hmem
    | cons first rest => rfl
  have hinner := (List.singleton_sublist.mpr (List.mem_map_of_mem (f := String.toList) hmem)
    |>.intercalate ['/']).subset
  rw [List.intercalate_singleton] at hinner
  rw [render, hparts, Bool.and_false, if_neg Bool.false_ne_true, String.toList_append,
    String.toList_intercalate]
  exact List.mem_append_right _ (hinner hc)

theorem splitSuffix_append (name : String) :
    (splitSuffix name).1 ++ (splitSuffix name).2 = name := by
  have hwhole := List.takeWhile_append_dropWhile (p := (· ≠ '.')) (l := name.toList.reverse)
  have hpoint := List.head?_dropWhile_not (· ≠ '.') name.toList.reverse
  rw [splitSuffix]
  generalize name.toList.reverse.takeWhile (· ≠ '.') = suffix at hwhole ⊢
  generalize name.toList.reverse.dropWhile (· ≠ '.') = rest at hwhole hpoint ⊢
  split
  · exact String.append_empty
  · next hsplit =>
      rcases rest with _ | ⟨c, stem⟩
      · exact absurd (Bool.or_true _) hsplit
      · obtain rfl : c = '.' := by simpa using hpoint
        have hname : stem.reverse ++ '.' :: suffix.reverse = name.toList := by
          rw [← List.reverse_reverse name.toList, ← hwhole, List.reverse_append,
            List.reverse_cons, List.append_assoc, List.singleton_append]
        rw [← String.ofList_append, List.drop_one, List.tail_cons, hname, String.ofList_toList]

/-- With another suffix a name is another one, unless it has that suffix already. -/
theorem stem_append_eq_iff {name suffix : String} :
    (splitSuffix name).1 ++ suffix = name ↔ (splitSuffix name).2 = suffix := by
  constructor
  · intro h
    exact String.append_right_inj _ |>.mp ((splitSuffix_append name).trans h.symm)
  · rintro rfl
    exact splitSuffix_append name

theorem withName_name {path : Path} (h : path.parts ≠ []) : path.withName path.name = path := by
  rw [withName, name, List.getLastD_eq_getLast?, List.getLast?_eq_some_getLast h,
    Option.getD_some, List.dropLast_concat_getLast h]

theorem isProper_of_length {part : String} (h : 2 < part.length) :
    isProper part = true ∧ part ≠ ".." := by
  refine ⟨?_, ?_⟩
  · rw [isProper, Bool.and_eq_true, decide_eq_true_eq, decide_eq_true_eq]
    constructor <;> (rintro rfl; revert h; decide)
  · rintro rfl
    revert h
    decide

end Path

/-- A part that leads somewhere, and not up, leads one step down. -/
theorem Place.eq_of_next? {place next : Place} {part : String} (hproper : Path.isProper part = true)
    (hdown : part ≠ "..") (h : place.next? part = some next) : next = place ++ [part] := by
  have hstep : ¬ (part = "" || part = ".") = true := by
    simpa [Path.isProper] using hproper
  rw [next?, if_neg hstep, if_neg hdown] at h
  split at h
  · cases h
  · exact (Option.some.inj h).symm

namespace Disk

variable {d : Disk} {place found : Place} {parts : List String} {text : String} {entry : Entry}

theorem checkText_eq_ok_iff : checkText text = .ok () ↔
    '\x00' ∉ text.toList ∧ text.utf8ByteSize ≤ Path.maxBytes := by
  rw [checkText]
  split
  · simp_all
  · split <;> simp_all

theorem checkText_of_sublist {other : String} (h : checkText text = .ok ())
    (hother : other.toList.Sublist text.toList) : checkText other = .ok () := by
  obtain ⟨hnull, hsize⟩ := checkText_eq_ok_iff.mp h
  refine checkText_eq_ok_iff.mpr ⟨fun hmem => hnull (hother.subset hmem), ?_⟩
  have hlen := String.utf8Len_le_of_sublist hother
  rw [String.utf8Len_toList, String.utf8Len_toList] at hlen
  exact hlen.trans hsize

theorem checkText_render (h : checkText text = .ok ()) :
    checkText (Path.ofString text).render = .ok () := by
  rcases Path.render_ofString text with hpoint | hsublist
  · rw [hpoint]
    rfl
  · exact checkText_of_sublist h hsublist

/-- Parts that mean nothing may be left out. -/
theorem follow_filter (h : d.follow place parts = .ok found) :
    d.follow place (parts.filter Path.isProper) = .ok found := by
  induction parts generalizing place with
  | nil => exact h
  | cons part rest ih =>
      obtain ⟨hdirectory, next, hnext, hrest⟩ := follow_cons_iff.mp h
      cases hproper : Path.isProper part with
      | true =>
          rw [List.filter_cons_of_pos hproper]
          exact follow_cons_iff.mpr ⟨hdirectory, next, hnext, ih hrest⟩
      | false =>
          rw [List.filter_cons_of_neg (by rw [hproper]; exact Bool.false_ne_true)]
          have hempty : part = "" ∨ part = "." := by
            simpa [Path.isProper, or_iff_not_imp_left] using hproper
          have hstay : place.next? part = some place := by
            rw [Place.next?, if_pos (by simpa using hempty)]
          cases hstay.symm.trans hnext
          exact ih hrest

/-- What a text names is found by its path. -/
theorem find_of_findText (h : d.findText text = .ok entry) :
    d.find (.ofString text) = .ok entry := by
  unfold findText at h
  rcases hcheck : checkText text with e | ⟨⟩
  · rw [hcheck] at h
    cases h
  rw [hcheck] at h
  by_cases hempty : text = ""
  · rw [if_pos hempty] at h
    cases h
  change (if text = "" then _ else _) = _ at h
  rw [if_neg hempty] at h
  obtain ⟨found, hfollow, hentry⟩ := look_eq_ok_iff.mp h
  rw [find, checkText_render hcheck]
  exact look_eq_ok_iff.mpr ⟨found, follow_filter hfollow, hentry⟩

theorem exists_of_find {path : Path} (h : d.find path = .ok entry) :
    ∃ place, d.Reaches path place ∧ d.entry? place = some entry := by
  rw [find] at h
  rcases hcheck : checkText path.render with e | ⟨⟩
  · rw [hcheck] at h
    cases h
  · rw [hcheck] at h
    exact look_eq_ok_iff.mp h

theorem follow_ne_nullCharacter (place : Place) (parts : List String) :
    d.follow place parts ≠ .error .nullCharacter := by
  fun_induction follow d place parts with
  | case1 => nofun
  | case2 => nofun
  | case3 => nofun
  | case4 _ _ _ _ _ _ ih => exact ih
  | case5 _ _ _ _ _ ih => exact ih
  | case6 => nofun
  | case7 _ _ _ _ _ _ _ _ ih => exact ih

/-- Only a text with a null character is refused for it. -/
theorem mem_of_findText (h : d.findText text = .error .nullCharacter) : '\x00' ∈ text.toList := by
  by_contra hnull
  unfold findText at h
  rcases hcheck : checkText text with e | ⟨⟩
  · rw [checkText, if_neg (by simpa using hnull)] at hcheck
    split at hcheck
    · cases hcheck
      rw [checkText, if_neg (by simpa using hnull), if_pos ‹_›] at h
      cases h
    · cases hcheck
  · rw [hcheck] at h
    change (if text = "" then _ else d.look _ _) = _ at h
    split at h
    · cases h
    · rw [look] at h
      rcases hfollow : d.follow (d.origin (.ofString text)) (Path.splitSlashes text) with e | found
      · rw [hfollow] at h
        cases h
        exact follow_ne_nullCharacter _ _ hfollow
      · rw [hfollow] at h
        rcases hentry : d.entry? found with _ | entry <;> simp [bind, Except.bind, hentry] at h

section Siblings

variable {d' : Disk} {directory : Place} {path : Path} {name suffix : String}
  {bytes written : ByteArray}

theorem follow_append_iff {before after : List String} :
    d.follow place (before ++ after) = .ok found ↔
      ∃ middle, d.follow place before = .ok middle ∧ d.follow middle after = .ok found := by
  induction before generalizing place with
  | nil =>
      rw [List.nil_append, follow]
      refine ⟨fun h => ⟨place, rfl, h⟩, ?_⟩
      rintro ⟨middle, hplace, h⟩
      cases hplace
      exact h
  | cons part rest ih =>
      simp only [List.cons_append, follow_cons_iff, ih]
      constructor
      · rintro ⟨hdirectory, next, hnext, middle, hbefore, hafter⟩
        exact ⟨middle, ⟨hdirectory, next, hnext, hbefore⟩, hafter⟩
      · rintro ⟨middle, ⟨hdirectory, next, hnext, hbefore⟩, hafter⟩
        exact ⟨hdirectory, next, hnext, middle, hbefore, hafter⟩

/-- Where the last part of a path leads from the directory around it. -/
theorem reaches_withName (hproper : Path.isProper name = true) (hdown : name ≠ "..")
    (hdirectory : d.follow (d.origin path) path.parts.dropLast = .ok directory)
    (h : d.Reaches (path.withName name) found) : found = directory ++ [name] := by
  obtain ⟨middle, hmiddle, hlast⟩ := follow_append_iff.mp h
  cases hdirectory.symm.trans hmiddle
  obtain ⟨-, next, hnext, hend⟩ := follow_cons_iff.mp hlast
  cases hend
  exact Place.eq_of_next? hproper hdown hnext

/-- A file stands under the last part of its path in the directory around it. -/
theorem directory_of_file (hworking : d.sight? d.working = some .directory)
    (hproper : ∀ part ∈ path.parts, Path.isProper part = true) (h : d.Reaches path place)
    (hfile : d.sight? place = some (.file bytes)) : ∃ directory,
      d.follow (d.origin path) path.parts.dropLast = .ok directory ∧
      place = directory ++ [path.name] := by
  have hparts : path.parts ≠ [] := by
    intro hnil
    rw [Reaches, hnil] at h
    cases h
    cases hfile.symm.trans (sight?_origin hworking path)
  have hname : path.name ∈ path.parts := by
    rw [Path.name, List.getLastD_eq_getLast?, List.getLast?_eq_some_getLast hparts]
    exact List.getLast_mem hparts
  rw [← Path.withName_name hparts] at h
  obtain ⟨directory, hdirectory, hlast⟩ := follow_append_iff.mp h
  obtain ⟨hsight, next, hnext, hend⟩ := follow_cons_iff.mp hlast
  cases hend
  refine ⟨directory, hdirectory, Place.eq_of_next? (hproper _ hname) ?_ hnext⟩
  intro hup
  -- what stands above a directory is a directory
  rw [hup] at hnext
  cases hnext
  cases hfile.symm.trans (sight?_dropLast hsight)

/-- A write beside a file, to its path with a suffix, is a write to the file itself when the file
has this suffix already. -/
theorem Writes.find_withSuffix (hworking : d.sight? d.working = some .directory)
    (h : d.Writes d' (path.withSuffix suffix) written) (hsuffix : 2 < suffix.length)
    (hproper : ∀ part ∈ path.parts, Path.isProper part = true)
    (hfind : d.find path = .ok (.file bytes)) : d'.find path =
      .ok (.file (if (Path.splitSuffix path.name).2 = suffix then written else bytes)) := by
  obtain ⟨hcheck, place, hreaches, hfile⟩ := find_eq_file_iff.mp hfind
  refine find_eq_file_iff.mpr ⟨hcheck, place, h.reaches hreaches, ?_⟩
  obtain ⟨directory, hdirectory, rfl⟩ := directory_of_file hworking hproper hreaches hfile
  obtain ⟨-, target, htarget, -, hsights⟩ := h
  have hlong : 2 < (path.stem ++ suffix).length := by
    rw [String.length_append]
    omega
  obtain ⟨hname, hdown⟩ := Path.isProper_of_length hlong
  obtain rfl := reaches_withName hname hdown hdirectory htarget
  have hsame : directory ++ [path.name] = directory ++ [path.stem ++ suffix] ↔
      (Path.splitSuffix path.name).2 = suffix := by
    rw [List.append_cancel_left_eq, List.singleton_inj, eq_comm]
    exact Path.stem_append_eq_iff
  rw [hsights]
  by_cases hsplit : (Path.splitSuffix path.name).2 = suffix
  · rw [if_pos (hsame.mpr hsplit), if_pos hsplit]
  · rw [if_neg (mt hsame.mp hsplit), if_neg hsplit, hfile]

end Siblings

theorem read_eq_ok_iff {path : Path} {bytes : ByteArray} :
    d.read path = .ok bytes ↔ d.find path = .ok (.file bytes) := by
  rw [read]
  rcases d.find path with e | _ | _ <;> simp [bind, Except.bind]

end Disk

end KestrelCompiler
