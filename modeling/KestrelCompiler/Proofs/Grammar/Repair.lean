import Mathlib.Logic.Relation
import KestrelCompiler.Proofs.Grammar.Lookahead
import KestrelCompiler.Proofs.StringLiteral.Fault

/-!
Repairs of a source from a place on. What was derived up to a place is still derived when the text
after it changes, as long as the next character stays the same or becomes a blank. So a text that is
read up to a fault can be put right by going on in another way there: with blanks first, so that no
lexeme before gets longer, and with the texts of the missing lexemes after them.
-/

namespace KestrelCompiler

open Relation StringLiteral StringLiteral.Piece

namespace Text

/-- In place of the old text the new one may follow: it begins with a blank or in the same way. -/
def Agrees (old new : List Char) : Prop :=
  ∀ c ∈ new.head?, isBlank c = true ∨ old.head? = some c

theorem Agrees.append {old new : List Char} (h : Agrees old new) (text : List Char) :
    Agrees (text ++ old) (text ++ new) := by
  cases text with
  | nil => exact h
  | cons c more => exact fun d hd => .inr hd

end Text

open Text

namespace Position

variable {R S T : Position → Position → Prop} {p m q : Position}

/-- The way from `p` to `q` stays open when the text after `q` changes. -/
def Moves (R : Position → Position → Prop) (p q : Position) : Prop :=
  ∃ text, p.rest = text ++ q.rest ∧ q.location = p.location.walk text ∧
    ∀ new, Agrees q.rest new → R ⟨p.location, text ++ new⟩ ⟨q.location, new⟩

theorem Moves.mono (h : Moves R p q) (hle : ∀ p q, R p q → T p q) : Moves T p q := by
  obtain ⟨text, hrest, hlocation, hmoves⟩ := h
  exact ⟨text, hrest, hlocation, fun new hnew => hle _ _ (hmoves new hnew)⟩

theorem moves_refl (h : ∀ p, T p p) (p : Position) : Moves T p p :=
  ⟨[], rfl, rfl, fun _ _ => h _⟩

theorem Moves.comp (h : Moves R p m) (h' : Moves S m q) : Moves (Comp R S) p q := by
  obtain ⟨text, hrest, hlocation, hmoves⟩ := h
  obtain ⟨text', hrest', hlocation', hmoves'⟩ := h'
  refine ⟨text ++ text', ?_, ?_, fun new hnew => ?_⟩
  · rw [hrest, hrest', List.append_assoc]
  · rw [hlocation', hlocation, Location.walk_append]
  · have hbetween : Agrees m.rest (text' ++ new) := by
      rw [hrest']
      exact hnew.append text'
    rw [List.append_assoc]
    exact ⟨_, hmoves _ hbetween, hmoves' new hnew⟩

/-- Some blanks stand before the rest. -/
def Ready (p : Position) (rest : List Char) : Prop :=
  ∃ blanks, blanks ≠ [] ∧ (∀ c ∈ blanks, isBlank c = true) ∧ p.rest = blanks ++ rest

/-- There is a text that leads on from wherever it stands after a blank, and it ends with one. -/
def Spells (R : Position → Position → Prop) : Prop :=
  ∃ text, ∀ p rest, Ready p (text ++ rest) → ∃ q, R p q ∧ Ready q rest

theorem Spells.mono (h : Spells R) (hle : ∀ p q, R p q → T p q) : Spells T := by
  obtain ⟨text, htext⟩ := h
  refine ⟨text, fun p rest hp => ?_⟩
  obtain ⟨q, hR, hq⟩ := htext p rest hp
  exact ⟨q, hle p q hR, hq⟩

theorem spells_refl (h : ∀ p, T p p) : Spells T :=
  ⟨[], fun p _ hp => ⟨p, h p, hp⟩⟩

theorem Spells.comp (h : Spells R) (h' : Spells S) : Spells (Comp R S) := by
  obtain ⟨text, htext⟩ := h
  obtain ⟨text', htext'⟩ := h'
  refine ⟨text ++ text', fun p rest hp => ?_⟩
  rw [List.append_assoc] at hp
  obtain ⟨m, hR, hm⟩ := htext p _ hp
  obtain ⟨q, hS, hq⟩ := htext' m rest hm
  exact ⟨q, ⟨m, hR, hS⟩, hq⟩

/-- How a text that was read is gone on with: something is added, after a blank if nothing was read,
or a literal is closed in front of an escape that can become no character any more. -/
inductive Mends : List Char → List Char → Prop
  | goOn {read added : List Char} :
    (read = [] → ∃ c ∈ added.head?, isBlank c = true) → Mends read (read ++ added)
  | close {before added : List Char} {pieces : List Piece} {digits : List HexDigit} :
    digits.length ≤ 4 → ForcesSurrogate digits →
    Mends (before ++ '"' :: (spellAll pieces ++ surrogateEscape digits))
      (before ++ (literal pieces ++ added))

theorem Mends.prepend {read mended : List Char} (h : Mends read mended) (text : List Char) :
    Mends (text ++ read) (text ++ mended) := by
  cases h with
  | goOn hblank =>
      rw [← List.append_assoc]
      exact .goOn fun hnil => hblank (List.append_eq_nil_iff.mp hnil).2
  | close hlength hdigits =>
      rw [← List.append_assoc, ← List.append_assoc]
      exact .close hlength hdigits

theorem Mends.append {read mended : List Char} (h : Mends read mended) (text : List Char) :
    Mends read (mended ++ text) := by
  cases h with
  | goOn hblank =>
      rw [List.append_assoc]
      refine .goOn fun hnil => ?_
      obtain ⟨c, hc, hcblank⟩ := hblank hnil
      exact ⟨c, by rw [List.head?_append, hc]; rfl, hcblank⟩
  | close hlength hdigits =>
      rw [List.append_assoc, List.append_assoc]
      exact .close hlength hdigits

theorem Mends.agrees {read mended : List Char} (h : Mends read mended) (after rest : List Char) :
    Agrees (read ++ after) (mended ++ rest) := by
  cases h with
  | @goOn _ added hblank =>
      cases read with
      | nil =>
          obtain ⟨c, hc, hcblank⟩ := hblank rfl
          obtain ⟨more, rfl⟩ := List.head?_eq_some_iff.mp hc
          rintro _ ⟨⟩
          exact .inl hcblank
      | cons c more => exact fun d hd => .inr hd
  | @close before _ _ _ _ _ =>
      cases before with
      | nil => exact fun d hd => .inr hd
      | cons c more => exact fun d hd => .inr hd

/-- What was read from `p` up to a point can be gone on with so that the way is open. -/
def Repairs (R : Position → Position → Prop) (p : Position) (l : Location) : Prop :=
  ∃ read after mended, p.rest = read ++ after ∧ l = p.location.walk read ∧ Mends read mended ∧
    ∀ rest, ∃ q, R ⟨p.location, mended ++ rest⟩ q ∧ Ready q rest

variable {l : Location}

theorem Repairs.mono (h : Repairs R p l) (hle : ∀ p q, R p q → T p q) : Repairs T p l := by
  obtain ⟨read, after, mended, hrest, hl, hmends, hopen⟩ := h
  refine ⟨read, after, mended, hrest, hl, hmends, fun rest => ?_⟩
  obtain ⟨q, hR, hq⟩ := hopen rest
  exact ⟨q, hle _ _ hR, hq⟩

/-- What has to come after the repaired part is added to it. -/
theorem Repairs.andThen (h : Repairs R p l) (hs : Spells S) : Repairs (Comp R S) p l := by
  obtain ⟨read, after, mended, hrest, hl, hmends, hopen⟩ := h
  obtain ⟨text, htext⟩ := hs
  refine ⟨read, after, mended ++ text, hrest, hl, hmends.append text, fun rest => ?_⟩
  obtain ⟨m, hR, hm⟩ := hopen (text ++ rest)
  obtain ⟨q, hS, hq⟩ := htext m rest hm
  rw [List.append_assoc]
  exact ⟨q, ⟨m, hR, hS⟩, hq⟩

/-- What came before the repaired part stays as it was. -/
theorem Repairs.after (h : Repairs S m l) (hm : Moves R p m) : Repairs (Comp R S) p l := by
  obtain ⟨text, hrest, hlocation, hmoves⟩ := hm
  obtain ⟨read, after, mended, hrest', hl, hmends, hopen⟩ := h
  refine ⟨text ++ read, after, text ++ mended, ?_, ?_, hmends.prepend text, fun rest => ?_⟩
  · rw [hrest, hrest', List.append_assoc]
  · rw [hl, hlocation, Location.walk_append]
  · obtain ⟨q, hS, hq⟩ := hopen rest
    have hagrees : Agrees m.rest (mended ++ rest) := by
      rw [hrest']
      exact hmends.agrees after rest
    rw [List.append_assoc]
    exact ⟨q, ⟨_, hmoves _ hagrees, hS⟩, hq⟩

/-- Where nothing fits at the next lexeme, what is missing is written there. -/
theorem repairs_of_spells (h : Spells R) (p : Position) : Repairs R p p.skip.location := by
  obtain ⟨text, htext⟩ := h
  refine ⟨p.rest.takeWhile isBlank, p.rest.dropWhile isBlank,
    p.rest.takeWhile isBlank ++ ' ' :: text, List.takeWhile_append_dropWhile.symm, rfl,
    .goOn fun _ => ⟨' ', rfl, by decide⟩, fun rest => ?_⟩
  refine htext _ rest ⟨p.rest.takeWhile isBlank ++ [' '], by simp, fun c hc => ?_, by simp⟩
  rcases List.mem_append.mp hc with hc | hc
  · exact List.all_eq_true.mp List.all_takeWhile c hc
  · rw [List.mem_singleton.mp hc]
    decide

end Position

namespace Shape

/-- The lexeme is one whenever the text after it agrees with one that it is a lexeme in front of. -/
def Lasting (shape : Shape) : Prop :=
  ∀ word old new, shape word old → Agrees old new → shape word new

theorem lasting_fixed (text : String) : (fixed text).Lasting :=
  fun _ _ _ h _ => h

theorem lasting_keyword (text : String) : (keyword text).Lasting := by
  rintro word old new ⟨hword, hold⟩ hagrees
  refine ⟨hword, fun c hc => ?_⟩
  rcases hagrees c hc with hblank | hsame
  · exact hblank
  · exact hold c hsame

/-- A blank ends a run as well as the character that ended it. -/
theorem lasting_run {accepts : Char → Bool} (h : ∀ c, isBlank c = true → accepts c = false) :
    (run accepts).Lasting := by
  rintro word old new ⟨hne, hword, hold⟩ hagrees
  refine ⟨hne, hword, fun c hc => ?_⟩
  rcases hagrees c hc with hblank | hsame
  · exact h c hblank
  · exact hold c hsame

theorem isIdentChar_eq_false_of_isBlank {c : Char} (h : isBlank c = true) :
    isIdentChar c = false := by
  cases hident : isIdentChar c with
  | false => rfl
  | true => exact absurd h (by rw [isBlank_eq_false_of_isIdentChar hident]; decide)

theorem lasting_identifier : identifier.Lasting :=
  lasting_run fun _ => isIdentChar_eq_false_of_isBlank

/-- A name that may be written wherever one is missing. -/
theorem identifier_single {rest : List Char} (h : ∀ c ∈ rest.head?, isIdentChar c = false) :
    identifier ['x'] rest := by
  refine ⟨List.cons_ne_nil _ _, fun c hc => ?_, h⟩
  rw [List.mem_singleton.mp hc]
  decide

theorem lasting_name : name.Lasting :=
  fun word old new h hagrees => ⟨lasting_identifier word old new h.1 hagrees, h.2⟩

theorem lasting_number : number.Lasting := by
  rintro word old new ⟨hword, hold⟩ hagrees
  refine ⟨hword, fun c hc => ?_⟩
  rcases hagrees c hc with hblank | hsame
  · have hident := isIdentChar_eq_false_of_isBlank hblank
    simp only [isIdentChar, Bool.or_eq_false_iff] at hident
    simp only [isNumberChar, hident.1.2, hident.2, Bool.or_self]
  · exact hold c hsame

end Shape

namespace Position

/-- A lexeme of some shape leads from `p` to `q`. -/
def Passes (shape : Shape) (p q : Position) : Prop :=
  ∃ t, Reads shape p t q

def PassesString (p q : Position) : Prop :=
  ∃ t, ReadsString p t q

theorem stands_word (l : Location) {blanks : List Char}
    (hblanks : ∀ c ∈ blanks, isBlank c = true) (word rest : List Char) :
    Stands ⟨l, blanks ++ (word ++ rest)⟩ word ⟨l.walk blanks, (l.walk blanks).walk word⟩
      ⟨(l.walk blanks).walk word, rest⟩ :=
  ⟨blanks, hblanks, rfl, rfl, rfl, rfl⟩

theorem passes_word (l : Location) {blanks : List Char}
    (hblanks : ∀ c ∈ blanks, isBlank c = true) {shape : Shape} {word rest : List Char}
    (h : shape word rest) :
    Passes shape ⟨l, blanks ++ (word ++ rest)⟩ ⟨(l.walk blanks).walk word, rest⟩ :=
  ⟨⟨_, String.ofList word, false⟩, word, h, stands_word l hblanks word rest, rfl, rfl⟩

theorem passesString_literal (l : Location) {blanks : List Char}
    (hblanks : ∀ c ∈ blanks, isBlank c = true) (pieces : List Piece) (rest : List Char) :
    PassesString ⟨l, blanks ++ (literal pieces ++ rest)⟩
      ⟨(l.walk blanks).walk (literal pieces), rest⟩ :=
  ⟨token (l.walk blanks) pieces, pieces, stands_word l hblanks (literal pieces) rest, rfl⟩

theorem Reads.moves {shape : Shape} (hlasting : shape.Lasting) {p q : Position} {t : Token}
    (h : Reads shape p t q) : Moves (Passes shape) p q := by
  obtain ⟨word, hshape, ⟨blanks, hblanks, hrest, hstart, hstop, hq⟩, -⟩ := h
  have hlocation : q.location = (p.location.walk blanks).walk word := by
    rw [hq, hstop, hstart]
  refine ⟨blanks ++ word, ?_, ?_, fun new hnew => ?_⟩
  · rw [hrest, List.append_assoc]
  · rw [hlocation, Location.walk_append]
  · rw [hlocation, List.append_assoc]
    exact passes_word p.location hblanks (hlasting word _ new hshape hnew)

theorem ReadsString.moves {p q : Position} {t : Token} (h : ReadsString p t q) :
    Moves PassesString p q := by
  obtain ⟨pieces, ⟨blanks, hblanks, hrest, hstart, hstop, hq⟩, -⟩ := h
  have hlocation : q.location = (p.location.walk blanks).walk (literal pieces) := by
    rw [hq, hstop, hstart]
  refine ⟨blanks ++ literal pieces, ?_, ?_, fun new _ => ?_⟩
  · rw [hrest, List.append_assoc]
  · rw [hlocation, Location.walk_append]
  · rw [hlocation, List.append_assoc]
    exact passesString_literal p.location hblanks pieces new

/-- The name of a directive needs its `!` after it, so both move together. -/
theorem moves_directive {p m q : Position} {name bang : Token}
    (hname : Reads .directiveName p name m) (hbang : Reads (.fixed "!") m bang q) :
    Moves (Comp (Passes .directiveName) (Passes (.fixed "!"))) p q := by
  obtain ⟨word, ⟨hident, hnext⟩, ⟨blanks, hblanks, hrest, hstart, hstop, hm⟩, -⟩ := hname
  obtain ⟨_, rfl, ⟨blanks', hblanks', hrest', hstart', hstop', hq⟩, -⟩ := hbang
  have hlocation : m.location = (p.location.walk blanks).walk word := by
    rw [hm, hstop, hstart]
  have hlocation' : q.location = (m.location.walk blanks').walk "!".toList := by
    rw [hq, hstop', hstart']
  refine ⟨blanks ++ (word ++ (blanks' ++ "!".toList)), ?_, ?_, fun new hnew => ?_⟩
  · rw [hrest, hrest']
    simp only [List.append_assoc]
  · rw [hlocation', hlocation, ← Location.walk_append, ← Location.walk_append,
      ← Location.walk_append]
  · have hagrees : Agrees m.rest (blanks' ++ ("!".toList ++ new)) := by
      rw [hrest']
      exact (hnew.append "!".toList).append blanks'
    have hbang : (blanks' ++ ("!".toList ++ new)).head? = some '!' := by
      rw [hrest'] at hnext
      cases blanks' with
      | nil => rfl
      | cons c more => exact hnext
    have hname : Shape.directiveName word (blanks' ++ ("!".toList ++ new)) :=
      ⟨Shape.lasting_identifier word _ _ hident hagrees, hbang⟩
    have hfixed : Shape.fixed "!" "!".toList new := rfl
    have hfirst := passes_word p.location hblanks hname
    have hsecond := passes_word m.location hblanks' hfixed
    rw [← hlocation] at hfirst
    rw [hlocation', List.append_assoc, List.append_assoc, List.append_assoc]
    exact ⟨_, hfirst, hsecond⟩

theorem ready_blank (l : Location) (rest : List Char) : Ready ⟨l, ' ' :: rest⟩ rest :=
  ⟨[' '], List.cons_ne_nil _ _, by simpa using (by decide : isBlank ' ' = true), rfl⟩

theorem spells_passes {shape : Shape} (word : List Char) (h : ∀ rest, shape word (' ' :: rest)) :
    Spells (Passes shape) := by
  refine ⟨word ++ [' '], fun p rest => ?_⟩
  rintro ⟨blanks, -, hblanks, hrest⟩
  obtain ⟨l, text⟩ := p
  obtain rfl : text = blanks ++ (word ++ ' ' :: rest) := by
    simpa using hrest
  exact ⟨_, passes_word l hblanks (h rest), ready_blank _ rest⟩

theorem spells_passesString : Spells PassesString := by
  refine ⟨literal [] ++ [' '], fun p rest => ?_⟩
  rintro ⟨blanks, -, hblanks, hrest⟩
  obtain ⟨l, text⟩ := p
  obtain rfl : text = blanks ++ (literal [] ++ ' ' :: rest) := by
    simpa using hrest
  exact ⟨_, passesString_literal l hblanks [] _, ready_blank _ rest⟩

theorem spells_fixed (text : String) : Spells (Passes (.fixed text)) :=
  spells_passes text.toList fun _ => rfl

theorem spells_keyword (text : String) : Spells (Passes (.keyword text)) := by
  refine spells_passes text.toList fun _ => ⟨rfl, ?_⟩
  rintro _ ⟨⟩
  decide

theorem spells_identifier : Spells (Passes .identifier) := by
  refine spells_passes ['x'] fun _ => Shape.identifier_single ?_
  rintro _ ⟨⟩
  decide

theorem spells_directive : Spells (Comp (Passes .directiveName) (Passes (.fixed "!"))) := by
  refine ⟨['x', '!', ' '], fun p rest => ?_⟩
  rintro ⟨blanks, -, hblanks, hrest⟩
  obtain ⟨l, text⟩ := p
  obtain rfl : text = blanks ++ (['x'] ++ '!' :: ' ' :: rest) := hrest
  have hshape : Shape.directiveName ['x'] ('!' :: ' ' :: rest) := by
    refine ⟨Shape.identifier_single ?_, rfl⟩
    rintro _ ⟨⟩
    decide
  have hnone : ∀ c ∈ ([] : List Char), isBlank c = true := nofun
  have hfixed : Shape.fixed "!" ['!'] (' ' :: rest) := rfl
  have hname := passes_word l hblanks hshape
  have hbang := passes_word ((l.walk blanks).walk ['x']) hnone hfixed
  exact ⟨_, ⟨_, hname, hbang⟩, ready_blank _ rest⟩

theorem spells_name : Spells (Passes .name) := by
  refine spells_passes ['x'] fun _ => ⟨Shape.identifier_single ?_, ?_⟩
  · rintro _ ⟨⟩
    decide
  · rintro _ ⟨⟩
    decide

/-- A literal that breaks off is closed, in front of an escape that can become no character. -/
theorem repairs_string {p : Position} {front after : List Char}
    (hrest : p.skip.rest = '"' :: front ++ after) (hfront : Unfinished front) :
    Repairs PassesString p (p.skip.location.walk ('"' :: front)) := by
  have hblanks : ∀ c ∈ p.rest.takeWhile isBlank, isBlank c = true :=
    List.all_eq_true.mp List.all_takeWhile
  have hsplit : p.rest = p.rest.takeWhile isBlank ++ '"' :: front ++ after := by
    rw [List.append_assoc, ← hrest]
    exact List.takeWhile_append_dropWhile.symm
  have hlocation : p.skip.location.walk ('"' :: front) =
      p.location.walk (p.rest.takeWhile isBlank ++ '"' :: front) := by
    rw [Location.walk_append]
    rfl
  obtain ⟨pieces, last, rfl, ⟨piece, rest, hpiece⟩ | ⟨digits, rfl, hlength, hdigits⟩⟩ := hfront
  · have hmends : Mends (p.rest.takeWhile isBlank ++ '"' :: (spellAll pieces ++ last))
        (p.rest.takeWhile isBlank ++ '"' :: (spellAll pieces ++ last) ++ (rest ++ ['"', ' '])) :=
      .goOn (by simp)
    refine ⟨_, after, _, hsplit, hlocation, hmends, fun tail => ?_⟩
    have hliteral : p.rest.takeWhile isBlank ++ '"' :: (spellAll pieces ++ last) ++
        (rest ++ ['"', ' ']) ++ tail =
        p.rest.takeWhile isBlank ++ (literal (pieces ++ [piece]) ++ ' ' :: tail) := by
      simp [literal, spellAll, hpiece]
    have hpasses := passesString_literal p.location hblanks (pieces ++ [piece]) (' ' :: tail)
    rw [← hliteral] at hpasses
    exact ⟨_, hpasses, ready_blank _ tail⟩
  · have hmends : Mends
        (p.rest.takeWhile isBlank ++ '"' :: (spellAll pieces ++ surrogateEscape digits))
        (p.rest.takeWhile isBlank ++ (literal pieces ++ [' '])) :=
      .close hlength hdigits
    refine ⟨_, after, _, hsplit, hlocation, hmends, fun tail => ?_⟩
    have hpasses := passesString_literal p.location hblanks pieces (' ' :: tail)
    rw [List.append_assoc, List.append_assoc]
    exact ⟨_, hpasses, ready_blank _ tail⟩

end Position

end KestrelCompiler
