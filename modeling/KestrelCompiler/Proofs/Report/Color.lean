import KestrelCompiler.Proofs.Disk.Writing
import KestrelCompiler.Proofs.Report.History
import Mathlib.Data.List.Forall2

/-!
Colors are only decoration. Two reporters, one with colors and one without, are given the same
commands. As long as nobody else writes escape characters, both fail at the same commands, and the
texts of the one without its style sequences are the texts of the other.
-/

namespace KestrelCompiler

namespace Text

/-- A text in which no style sequence begins. -/
def EscapeFree (text : String) : Prop :=
  escapeChar ∉ text.toList

instance (text : String) : Decidable (EscapeFree text) :=
  inferInstanceAs (Decidable (escapeChar ∉ text.toList))

/-- Unified breaks are the only new characters. -/
theorem mem_of_mem_unifyBreaks {text : List Char} {c : Char} (h : c ∈ unifyBreaks text) :
    c = '\n' ∨ c ∈ text := by
  fun_induction unifyBreaks text with
  | case1 => exact .inr h
  | case2 rest ih =>
      rcases List.mem_cons.mp h with rfl | h
      · exact .inl rfl
      · exact (ih h).imp_right fun h => List.mem_cons_of_mem _ (List.mem_cons_of_mem _ h)
  | case3 rest _ ih =>
      rcases List.mem_cons.mp h with rfl | h
      · exact .inl rfl
      · exact (ih h).imp_right (List.mem_cons_of_mem _)
  | case4 first rest _ _ ih =>
      rcases List.mem_cons.mp h with rfl | h
      · exact .inr List.mem_cons_self
      · exact (ih h).imp_right (List.mem_cons_of_mem _)

theorem mem_of_mem_lines {text line : List Char} {c : Char} (hline : line ∈ lines text)
    (hc : c ∈ line) : c ∈ text := by
  fun_induction lines text generalizing line with
  | case1 => cases hline
  | case2 rest ih =>
      rcases List.mem_cons.mp hline with rfl | hline
      · cases hc
      · exact List.mem_cons_of_mem _ (List.mem_cons_of_mem _ (ih hline hc))
  | case3 first rest _ _ ih =>
      rcases List.mem_cons.mp hline with rfl | hline
      · cases hc
      · exact List.mem_cons_of_mem _ (ih hline hc)
  | case4 first rest _ _ hrest _ =>
      obtain rfl := List.mem_singleton.mp hline
      obtain rfl := List.mem_singleton.mp hc
      exact List.mem_cons_self
  | case5 first rest _ _ line' others hrest ih =>
      rw [hrest] at ih
      rcases List.mem_cons.mp hline with rfl | hline
      · rcases List.mem_cons.mp hc with rfl | hc
        · exact List.mem_cons_self
        · exact List.mem_cons_of_mem _ (ih List.mem_cons_self hc)
      · exact List.mem_cons_of_mem _ (ih (List.mem_cons_of_mem _ hline) hc)

namespace EscapeFree

variable {a b : String}

theorem append (ha : EscapeFree a) (hb : EscapeFree b) : EscapeFree (a ++ b) := by
  rw [EscapeFree, String.toList_append, List.mem_append, not_or]
  exact ⟨ha, hb⟩

theorem replicate {c : Char} (hc : c ≠ escapeChar) (n : Nat) :
    EscapeFree (String.ofList (List.replicate n c)) := by
  rw [EscapeFree, String.toList_ofList]
  exact fun h => hc (List.eq_of_mem_replicate h).symm

theorem repr (n : Nat) : EscapeFree n.repr := by
  rw [EscapeFree, Nat.toList_repr]
  intro h
  have hdigit := Nat.isDigit_of_mem_toDigits (by decide) (by decide) h
  cases hdigit

theorem toString (n : Int) : EscapeFree (toString n) := by
  cases n with
  | ofNat n => exact repr n
  | negSucc n => exact append (by decide) (repr (n + 1))

theorem unifyBreaks (h : EscapeFree a) :
    EscapeFree (String.ofList (Text.unifyBreaks a.toList)) := by
  rw [EscapeFree, String.toList_ofList]
  intro hmem
  rcases mem_of_mem_unifyBreaks hmem with hbreak | hmem
  · exact absurd hbreak (by decide)
  · exact h hmem

theorem splitLines (h : EscapeFree a) : ∀ line ∈ Text.splitLines a, EscapeFree line := by
  intro line hline
  obtain ⟨characters, hcharacters, rfl⟩ := List.mem_map.mp hline
  rw [EscapeFree, String.toList_ofList]
  exact fun hmem => h (mem_of_mem_lines hcharacters hmem)

end EscapeFree

theorem withoutStyles_nil : withoutStyles [] = [] := by
  rw [withoutStyles]
  rfl

theorem withoutStyles_cons {c : Char} (h : c ≠ escapeChar) (rest : List Char) :
    withoutStyles (c :: rest) = c :: withoutStyles rest := by
  have hstyle : afterStyle? (c :: rest) = none := by
    unfold afterStyle?
    split
    · next heq => 
      cases heq
      exact absurd rfl h
    · rfl
  rw [withoutStyles]
  split
  · next heq =>
      rw [hstyle] at heq
      cases heq
  · rfl

theorem withoutStyles_of_afterStyle? {text after : List Char} (h : afterStyle? text = some after) :
    withoutStyles text = withoutStyles after := by
  rw [withoutStyles]
  split
  · next heq =>
      rw [h] at heq
      cases heq
      rfl
  · next heq =>
      rw [h] at heq
      cases heq

theorem withoutStyles_append {text : List Char} (h : escapeChar ∉ text) (rest : List Char) :
    withoutStyles (text ++ rest) = text ++ withoutStyles rest := by
  induction text with
  | nil => rfl
  | cons c text ih =>
      rw [List.mem_cons, not_or] at h
      rw [List.cons_append, withoutStyles_cons (Ne.symm h.1), ih h.2, List.cons_append]

/-- A text without its style sequences is the plain one, whatever stands behind it. -/
structure Decorates (styled plain : String) : Prop where
  escapeFree : EscapeFree plain
  stripped : ∀ rest, withoutStyles (styled.toList ++ rest) = plain.toList ++ withoutStyles rest

namespace Decorates

variable {a a' b b' : String}

theorem refl (h : EscapeFree a) : Decorates a a :=
  ⟨h, withoutStyles_append h⟩

theorem append (h : Decorates a b) (h' : Decorates a' b') : Decorates (a ++ a') (b ++ b') := by
  refine ⟨h.escapeFree.append h'.escapeFree, fun rest => ?_⟩
  rw [String.toList_append, String.toList_append, List.append_assoc, List.append_assoc, h.stripped,
    h'.stripped]

theorem style {style : String} (h : ∀ rest, afterStyle? (style.toList ++ rest) = some rest) :
    Decorates style "" :=
  ⟨List.not_mem_nil, fun rest => withoutStyles_of_afterStyle? (h rest)⟩

theorem stripStyles_eq (h : Decorates a b) : stripStyles a = b := by
  have hstripped := h.stripped []
  rw [withoutStyles_nil, List.append_nil, List.append_nil] at hstripped
  rw [stripStyles, hstripped, String.ofList_toList]

theorem lines {styled plain : List String} (h : List.Forall₂ Decorates styled plain) :
    Decorates ("\n".intercalate styled) ("\n".intercalate plain) := by
  have hbreak : Decorates "\n" "\n" := refl (by decide)
  induction h with
  | nil => exact refl (by decide)
  | cons h hrest ih =>
      cases hrest with
      | nil => simpa using h
      | cons h' hrest' =>
          rw [String.intercalate_cons_cons, String.intercalate_cons_cons]
          exact (h.append hbreak).append ih

end Decorates

end Text

open Text (EscapeFree Decorates)

namespace Failure

/-- Both stop at the same failure, or both go on with results that are related. -/
inductive Agree {α β : Type} (R : α → β → Prop) : Except Failure α → Except Failure β → Prop
  | stop (e : Failure) : Agree R (.error e) (.error e)
  | go {a : α} {b : β} : R a b → Agree R (.ok a) (.ok b)

theorem Agree.bind {α β γ δ : Type} {R : α → β → Prop} {S : γ → δ → Prop} {x : Except Failure α}
    {y : Except Failure β} {f : α → Except Failure γ} {g : β → Except Failure δ}
    (h : Agree R x y) (hnext : ∀ a b, R a b → Agree S (f a) (g b)) :
    Agree S (x >>= f) (y >>= g) := by
  cases h with
  | stop e => exact .stop e
  | go hab => exact hnext _ _ hab

end Failure

open Failure (Agree)

/-- A diagnostic that brings no style sequences along. -/
structure Diagnostic.EscapeFree (d : Diagnostic) : Prop where
  code : Text.EscapeFree d.code
  message : Text.EscapeFree d.message
  filename : Text.EscapeFree d.filename
  labels : ∀ l ∈ d.labels, Text.EscapeFree l.message
  notes : ∀ note ∈ d.notes, Text.EscapeFree note

namespace Reporter

theorem escapeFree_spaces (n : Nat) : EscapeFree (spaces n) :=
  .replicate (by decide) n

theorem escapeFree_gutter (line : Int) : EscapeFree (gutter line) :=
  (escapeFree_spaces _).append (.toString _)

theorem escapeFree_describe (l : Location) : EscapeFree l.describe :=
  ((EscapeFree.toString _).append (by decide)).append (.toString _)

theorem decorates_paint {style text : String}
    (hstyle : ∀ rest, Text.afterStyle? (style.toList ++ rest) = some rest)
    (h : EscapeFree text) : Decorates (paint true style text) (paint false style text) := by
  have hreset : Decorates Text.Style.reset "" := .style fun _ => rfl
  simpa [paint] using ((Decorates.style hstyle).append (.refl h)).append hreset

theorem decorates_blue {text : String} (h : EscapeFree text) :
    Decorates (paint true Text.Style.boldBlue text) (paint false Text.Style.boldBlue text) :=
  decorates_paint (fun _ => rfl) h

theorem decorates_red {text : String} (h : EscapeFree text) :
    Decorates (paint true Text.Style.boldRed text) (paint false Text.Style.boldRed text) :=
  decorates_paint (fun _ => rfl) h

theorem decorates_barred {gutter styled plain : String} (hgutter : EscapeFree gutter)
    (h : Decorates styled plain) :
    Decorates (barred true gutter styled) (barred false gutter plain) :=
  ((Decorates.refl (by decide)).append (decorates_blue (hgutter.append (by decide)))).append h

theorem decorates_header {d : Diagnostic} (h : d.EscapeFree) :
    Decorates (header true d) (header false d) := by
  have hcode : EscapeFree ("error[" ++ d.code ++ "]") :=
    (EscapeFree.append (by decide) h.code).append (by decide)
  have hmessage : EscapeFree (": " ++ d.message) := .append (by decide) h.message
  exact (decorates_red hcode).append (decorates_paint (fun _ => rfl) hmessage)

theorem decorates_noteLine {note : String} (h : EscapeFree note) :
    Decorates (noteLine true note) (noteLine false note) := by
  have hmark : Decorates ("  " ++ paint true Text.Style.boldBlue "=" ++ " note: ")
      ("  " ++ paint false Text.Style.boldBlue "=" ++ " note: ") :=
    ((Decorates.refl (by decide)).append (decorates_blue (by decide))).append (.refl (by decide))
  exact hmark.append (.refl h)

theorem agree_ofRow {c : Char} (hc : c ≠ Text.escapeChar) (count : Int) :
    Agree (fun a b => a = b ∧ EscapeFree a) (Failure.ofRow (Text.row c count))
      (Failure.ofRow (Text.row c count)) := by
  rw [Text.row]
  cases Text.checkRow 1 count with
  | error e => exact .stop _
  | ok _ => exact .go ⟨rfl, .replicate hc _⟩

theorem agree_carets (s : Span) : Agree Decorates (carets true s) (carets false s) := by
  refine (agree_ofRow (by decide) s.start.column).bind fun padding _ ⟨hsame, hpadding⟩ => ?_
  subst hsame
  refine (agree_ofRow (by decide) _).bind fun row _ ⟨hsame, hrow⟩ => ?_
  subst hsame
  exact .go (((Decorates.refl (by decide)).append (.refl hpadding)).append (decorates_red hrow))

theorem agree_snippet {line : String} (h : EscapeFree line) (s : Span) :
    Agree (List.Forall₂ Decorates) (snippet true line s) (snippet false line s) := by
  have hshown := decorates_barred (escapeFree_gutter s.start.line)
    (.refl (EscapeFree.append (a := " ") (by decide) h))
  unfold snippet
  split
  · refine (agree_carets s).bind fun a b hcarets => .go ?_
    exact .cons hshown (.cons (decorates_barred (by decide) hcarets) .nil)
  · exact .go (.cons hshown .nil)

theorem mem_of_lineAt? {lines : List String} {line : Int} {text : String}
    (h : lineAt? lines line = some text) : text ∈ lines := by
  unfold lineAt? at h
  split at h
  · exact List.mem_of_getElem? h
  · cases h

theorem decorates_hint {message : String} (h : EscapeFree message) :
    List.Forall₂ Decorates
      (if message = "" then []
        else [barred true "  " ("   " ++ paint true Text.Style.boldRed message)])
      (if message = "" then []
        else [barred false "  " ("   " ++ paint false Text.Style.boldRed message)]) := by
  split
  · exact .nil
  · have hmessage : Decorates ("   " ++ paint true Text.Style.boldRed message)
        ("   " ++ paint false Text.Style.boldRed message) :=
      (Decorates.refl (by decide)).append (decorates_red h)
    exact .cons (decorates_barred (by decide) hmessage) .nil

theorem decorates_place {filename : String} (h : EscapeFree filename) (l : Location) :
    Decorates
      ("  " ++ paint true Text.Style.boldBlue "-->" ++ " " ++ filename ++ ":" ++ l.describe)
      ("  " ++ paint false Text.Style.boldBlue "-->" ++ " " ++ filename ++ ":" ++ l.describe) :=
  (((((Decorates.refl (by decide)).append (decorates_blue (by decide))).append
    (.refl (by decide))).append (.refl h)).append (.refl (by decide))).append
    (.refl (escapeFree_describe l))

theorem agree_labelLines {filename : String} {lines : List String} {l : Label}
    (hfilename : EscapeFree filename) (hlines : ∀ line ∈ lines, EscapeFree line)
    (hl : EscapeFree l.message) :
    Agree (List.Forall₂ Decorates) (labelLines true filename lines l)
      (labelLines false filename lines l) := by
  have hbar : Decorates (barred true "  " "") (barred false "  " "") :=
    decorates_barred (by decide) (.refl (by decide))
  have hplace := decorates_place hfilename l.span.start
  have hall {a b : List String} (hshown : List.Forall₂ Decorates a b) :=
    List.rel_append (List.rel_append (.cons hplace (.cons hbar .nil)) hshown) (decorates_hint hl)
  unfold labelLines
  cases hline : lineAt? lines l.span.start.line with
  | none => exact .go (hall .nil)
  | some line =>
      exact (agree_snippet (hlines line (mem_of_lineAt? hline)) l.span).bind fun _ _ hshown =>
        .go (hall hshown)

/-- The lines that a reporter knows bring no style sequences along. -/
def SourcesFree (sources : List (String × List String)) : Prop :=
  ∀ entry ∈ sources, ∀ line ∈ entry.2, EscapeFree line

/-- Two reporters that know the same lines, one with colors and one without, come to related
results, and know the same lines again. -/
inductive Pairs {α : Type} (R : α → α → Prop) :
    Except Failure α × Reporter → Except Failure α × Reporter → Prop
  | stop {sources : List (String × List String)} (hsources : SourcesFree sources) (e : Failure) :
      Pairs R (.error e, ⟨true, sources⟩) (.error e, ⟨false, sources⟩)
  | go {sources : List (String × List String)} (hsources : SourcesFree sources) {a b : α}
      (h : R a b) : Pairs R (.ok a, ⟨true, sources⟩) (.ok b, ⟨false, sources⟩)

end Reporter

/-- The texts on a disk bring no style sequences along. -/
def Disk.EscapeFree (d : Disk) : Prop :=
  ∀ place bytes text, d.sight? place = some (.file bytes) → String.fromUTF8? bytes = some text →
    Text.EscapeFree text

theorem Disk.EscapeFree.install {d : Disk} (h : d.EscapeFree) {path : Path} {bytes : ByteArray}
    (hbytes : ∀ text, String.fromUTF8? bytes = some text → Text.EscapeFree text) :
    (d.install path bytes).2.EscapeFree := by
  intro place content text hsight htext
  rcases file_of_install hsight with hold | rfl
  · exact h place content text hold htext
  · exact hbytes text htext

namespace Reporter

variable {d : Disk} {sources : List (String × List String)}

theorem escapeFree_readLines (hd : d.EscapeFree) {filename : String} {lines : List String}
    (h : readLines d filename = .ok lines) : ∀ line ∈ lines, EscapeFree line := by
  by_cases hfile : ∃ bytes, d.find (.ofString filename) = .ok (.file bytes)
  · obtain ⟨bytes, hfind⟩ := hfile
    obtain ⟨-, place, -, hsight⟩ := Disk.find_eq_file_iff.mp hfind
    rw [readLines_of_file hfind] at h
    unfold Failure.decode at h
    split at h
    · next text htext =>
        cases h
        exact (hd place bytes text hsight htext).unifyBreaks.splitLines
    · cases h
  · rw [readLines_of_no_file fun bytes hfind => hfile ⟨bytes, hfind⟩] at h
    cases h
    exact List.forall_mem_nil _

theorem pairs_linesOf (hd : d.EscapeFree) (hsources : SourcesFree sources) (filename : String) :
    Pairs (fun a b => a = b ∧ ∀ line ∈ a, EscapeFree line) (linesOf ⟨true, sources⟩ d filename)
      (linesOf ⟨false, sources⟩ d filename) := by
  unfold linesOf
  cases hlookup : sources.lookup filename with
  | some lines =>
      obtain ⟨before, after, rfl, -⟩ := List.lookup_eq_some_iff.mp hlookup
      refine .go hsources ⟨rfl, ?_⟩
      exact hsources (filename, lines) (List.mem_append_right before List.mem_cons_self)
  | none =>
      cases hread : readLines d filename with
      | error e => exact .stop hsources e
      | ok lines =>
          have hlines := escapeFree_readLines hd hread
          exact .go (List.forall_mem_cons.mpr ⟨hlines, hsources⟩) ⟨rfl, hlines⟩

theorem pairs_labelsLines (hd : d.EscapeFree) {filename : String} (hfilename : EscapeFree filename)
    {labels : List Label} (hlabels : ∀ l ∈ labels, EscapeFree l.message)
    (hsources : SourcesFree sources) :
    Pairs (List.Forall₂ Decorates) (labelsLines ⟨true, sources⟩ d filename labels)
      (labelsLines ⟨false, sources⟩ d filename labels) := by
  induction labels generalizing sources with
  | nil => exact .go hsources .nil
  | cons l rest ih =>
      -- each place looks the file up again, with the reporters that the one before has left
      obtain ⟨hl, hrest⟩ := List.forall_mem_cons.mp hlabels
      have hlines := pairs_linesOf hd hsources filename
      unfold labelsLines
      generalize linesOf ⟨true, sources⟩ d filename = x at hlines ⊢
      generalize linesOf ⟨false, sources⟩ d filename = y at hlines ⊢
      cases hlines with
      | stop hsources e => exact .stop hsources e
      | @go _ hsources lines _ hsame =>
          obtain ⟨rfl, hfree⟩ := hsame
          have hshown := agree_labelLines hfilename hfree hl
          dsimp only
          generalize labelLines true filename lines l = x at hshown ⊢
          generalize labelLines false filename lines l = y at hshown ⊢
          cases hshown with
          | stop e => exact .stop hsources e
          | go hshown =>
              have hothers := ih hrest hsources
              generalize labelsLines ⟨true, _⟩ d filename rest = x at hothers ⊢
              generalize labelsLines ⟨false, _⟩ d filename rest = y at hothers ⊢
              cases hothers with
              | stop hsources e => exact .stop hsources e
              | go hsources hothers => exact .go hsources (List.rel_append hshown hothers)

theorem decorates_notes {notes : List String} (h : ∀ note ∈ notes, EscapeFree note) :
    List.Forall₂ Decorates (notes.map (noteLine true)) (notes.map (noteLine false)) := by
  rw [List.forall₂_map_left_iff, List.forall₂_map_right_iff, List.forall₂_same]
  exact fun note hnote => decorates_noteLine (h note hnote)

theorem pairs_render (hd : d.EscapeFree) {diagnostic : Diagnostic} (h : diagnostic.EscapeFree)
    (hsources : SourcesFree sources) :
    Pairs Decorates (render ⟨true, sources⟩ d diagnostic)
      (render ⟨false, sources⟩ d diagnostic) := by
  have hlines := pairs_labelsLines hd h.filename h.labels hsources
  unfold render
  generalize labelsLines ⟨true, sources⟩ d _ _ = x at hlines ⊢
  generalize labelsLines ⟨false, sources⟩ d _ _ = y at hlines ⊢
  cases hlines with
  | stop hsources e => exact .stop hsources e
  | go hsources hlines =>
      refine .go hsources (.lines ?_)
      exact .cons (decorates_header h) (List.rel_append hlines (decorates_notes h.notes))

end Reporter

namespace Reporting

/-- A command that brings no style sequences along. -/
def Command.EscapeFree : Command → Prop
  | addSource _ source => Text.EscapeFree source
  | writeFile _ bytes => ∀ text, String.fromUTF8? bytes = some text → Text.EscapeFree text
  | render diagnostic => diagnostic.EscapeFree

/-- Two reporters that differ in their colors only, and the same disk. -/
inductive Twins : Reporting → Reporting → Prop
  | mk {sources : List (String × List String)} {disk : Disk} :
      Reporter.SourcesFree sources → disk.EscapeFree →
      Twins ⟨⟨true, sources⟩, disk⟩ ⟨⟨false, sources⟩, disk⟩

variable {s s' : Reporting} {command : Command} {commands : List Command}

theorem Twins.perform (h : Twins s s') (hcommand : command.EscapeFree) :
    Agree (Option.Rel Decorates) (s.perform command).1 (s'.perform command).1 ∧
      Twins (s.perform command).2 (s'.perform command).2 := by
  obtain ⟨hsources, hdisk⟩ := h
  cases command with
  | addSource filename source =>
      refine ⟨.go .none, .mk (List.forall_mem_cons.mpr ⟨?_, hsources⟩) hdisk⟩
      exact Text.EscapeFree.splitLines hcommand
  | writeFile filename bytes =>
      refine ⟨?_, .mk hsources (hdisk.install hcommand)⟩
      unfold Reporting.perform
      dsimp only
      cases (Disk.install _ (.ofString filename) bytes).1 with
      | error e => exact .stop (.disk e)
      | ok _ => exact .go .none
  | render diagnostic =>
      have hrender := Reporter.pairs_render hdisk hcommand hsources
      unfold Reporting.perform
      dsimp only
      generalize Reporter.render ⟨true, _⟩ _ _ = x at hrender ⊢
      generalize Reporter.render ⟨false, _⟩ _ _ = y at hrender ⊢
      cases hrender with
      | stop hsources e => exact ⟨.stop e, .mk hsources hdisk⟩
      | go hsources h => exact ⟨.go (.some h), .mk hsources hdisk⟩

theorem Twins.results (h : Twins s s') (hcommands : ∀ command ∈ commands, command.EscapeFree) :
    List.Forall₂ (Agree (Option.Rel Decorates)) (s.results commands) (s'.results commands) := by
  induction commands generalizing s s' with
  | nil => exact .nil
  | cons command commands ih =>
      obtain ⟨hcommand, hcommands⟩ := List.forall_mem_cons.mp hcommands
      obtain ⟨hagree, htwins⟩ := h.perform hcommand
      exact .cons hagree (ih htwins hcommands)

/-- With colors and without, commands fail at the same places and give the same texts, apart from
the style sequences. -/
theorem results_of_colors {d : Disk} (hd : d.EscapeFree)
    (hcommands : ∀ command ∈ commands, command.EscapeFree) :
    List.Forall₂ (Agree (Option.Rel fun styled plain =>
        Text.stripStyles styled = plain ∧ Text.EscapeFree plain))
      (results ⟨{ color := true }, d⟩ commands) (results ⟨{ color := false }, d⟩ commands) := by
  have htwins : Twins ⟨{ color := true }, d⟩ ⟨{ color := false }, d⟩ :=
    .mk (List.forall_mem_nil _) hd
  refine (htwins.results hcommands).imp fun x y hagree => ?_
  cases hagree with
  | stop e => exact .stop e
  | go hrel =>
      cases hrel with
      | none => exact .go .none
      | some h => exact .go (.some ⟨h.stripStyles_eq, h.escapeFree⟩)

/-- All that a diagnostic may have. -/
def fullDiagnostic : Diagnostic where
  code := "E200"
  message := "m"
  filename := "a"
  labels := [⟨⟨{}, {}⟩, "h"⟩]
  notes := ["n"]

/-- A file is written and shown, and then there is another source for it. -/
def rewritingCommands : List Command :=
  [.writeFile "a" "x".toByteArray, .render fullDiagnostic, .addSource "a" "y",
    .render fullDiagnostic]

theorem results_of_colors_rewriting : Disk.EscapeFree ⟨[], .directory []⟩ ∧
    (∀ command ∈ rewritingCommands, command.EscapeFree) ∧
    List.Forall₂ (Agree (Option.Rel fun styled plain =>
        Text.stripStyles styled = plain ∧ Text.EscapeFree plain))
      (results ⟨{ color := true }, ⟨[], .directory []⟩⟩ rewritingCommands)
      (results ⟨{ color := false }, ⟨[], .directory []⟩⟩ rewritingCommands) := by
  have hd : Disk.EscapeFree ⟨[], .directory []⟩ := by
    intro place bytes text hsight _
    cases place <;> cases hsight
  have hcommands : ∀ command ∈ rewritingCommands, command.EscapeFree := by
    have hshown : fullDiagnostic.EscapeFree := by
      constructor <;> decide
    have hwritten : Command.EscapeFree (.writeFile "a" "x".toByteArray) := by
      intro text htext
      rw [fromUTF8?_toByteArray] at htext
      cases htext
      decide
    have hadded : Command.EscapeFree (.addSource "a" "y") := by
      change Text.EscapeFree "y"
      decide
    simp only [rewritingCommands, List.forall_mem_cons]
    exact ⟨hwritten, hshown, hadded, hshown, List.forall_mem_nil _⟩
  exact ⟨hd, hcommands, results_of_colors hd hcommands⟩

end Reporting

end KestrelCompiler
