import KestrelCompiler.Proofs.Grammar.Shape

/-!
Lookahead. The first character of the next lexeme tells which lexemes and which phrases of the
grammar can begin at a place.
-/

namespace KestrelCompiler

namespace Position

/-- The position after the blanks. -/
def skip (p : Position) : Position where
  location := p.location.walk (p.rest.takeWhile Text.isBlank)
  rest := p.rest.dropWhile Text.isBlank

/-- The first character of the next lexeme. -/
def next? (p : Position) : Option Char :=
  p.skip.rest.head?

theorem skip_skip (p : Position) : p.skip.skip = p.skip := by
  have hhead := head?_dropWhile_eq_false Text.isBlank p.rest
  have hword := @takeWhile_append_eq Char Text.isBlank [] _ nofun hhead
  simp only [List.nil_append] at hword
  simp only [skip, hword.1, hword.2, Location.walk_nil]

theorem stands_iff {p q : Position} {word : List Char} {s : Span} {c : Char} {more : List Char}
    (hword : word = c :: more) (hc : Text.isBlank c = false) :
    p.Stands word s q ↔ p.skip.rest = word ++ q.rest ∧
      s = ⟨p.skip.location, p.skip.location.walk word⟩ ∧ q.location = s.stop := by
  constructor
  · rintro ⟨blanks, hblanks, hrest, hstart, hstop, hq⟩
    have hsolid : ∀ d ∈ (word ++ q.rest).head?, Text.isBlank d = false := by
      subst hword
      rintro d ⟨⟩
      exact hc
    obtain ⟨htake, hdrop⟩ := takeWhile_append_eq hblanks hsolid
    rw [← hrest] at htake hdrop
    refine ⟨hdrop, ?_, hq⟩
    rw [skip, htake, ← hstart, ← hstop]
  · rintro ⟨hrest, rfl, hq⟩
    refine ⟨p.rest.takeWhile Text.isBlank, List.all_eq_true.mp List.all_takeWhile, ?_, rfl, rfl, hq⟩
    rw [← hrest]
    exact List.takeWhile_append_dropWhile.symm

theorem reads_iff {shape : Shape} (hsolid : shape.Solid) {p q : Position} {t : Token} :
    Reads shape p t q ↔ ∃ word, shape word q.rest ∧ p.skip.rest = word ++ q.rest ∧
      q.location = p.skip.location.walk word ∧
      t = ⟨⟨p.skip.location, p.skip.location.walk word⟩, String.ofList word, false⟩ := by
  constructor
  · rintro ⟨word, hshape, hstands, htext, hdecoded⟩
    obtain ⟨c, more, hword, hc⟩ := hsolid word _ hshape
    obtain ⟨hrest, hspan, hq⟩ := (stands_iff hword hc).mp hstands
    refine ⟨word, hshape, hrest, ?_, ?_⟩
    · rw [hq, hspan]
    · cases t
      simp_all
  · rintro ⟨word, hshape, hrest, hq, rfl⟩
    obtain ⟨c, more, hword, hc⟩ := hsolid word _ hshape
    exact ⟨word, hshape, (stands_iff hword hc).mpr ⟨hrest, rfl, hq⟩, rfl, rfl⟩

theorem Reads.begins {shape : Shape} {P : Char → Prop} {p q : Position} {t : Token}
    (h : Reads shape p t q) (hbegins : shape.Begins P) (hP : ∀ c, P c → Text.isBlank c = false) :
    ∃ c ∈ p.next?, P c := by
  obtain ⟨word, hshape, hrest, -, -⟩ := (reads_iff (hbegins.solid hP)).mp h
  obtain ⟨c, more, rfl, hc⟩ := hbegins word _ hshape
  exact ⟨c, by rw [next?, hrest]; rfl, hc⟩

theorem Reads.next?_eq {text : String} {p q : Position} {t : Token} {c : Char} {more : List Char}
    (h : Reads (.fixed text) p t q) (htext : text.toList = c :: more)
    (hc : Text.isBlank c = false) : p.next? = some c := by
  obtain ⟨d, hd, rfl⟩ := h.begins (Shape.begins_fixed htext) fun _ hd => hd ▸ hc
  exact hd

theorem Reads.next?_keyword {text : String} {p q : Position} {t : Token} {c : Char}
    {more : List Char} (h : Reads (.keyword text) p t q) (htext : text.toList = c :: more)
    (hc : Text.isBlank c = false) : p.next? = some c := by
  obtain ⟨d, hd, rfl⟩ := h.begins (Shape.begins_keyword htext) fun _ hd => hd ▸ hc
  exact hd

theorem Reads.next?_identifier {p q : Position} {t : Token} (h : Reads .identifier p t q) :
    ∃ c ∈ p.next?, isIdentChar c = true :=
  h.begins Shape.begins_identifier fun _ => isBlank_eq_false_of_isIdentChar

theorem Reads.next?_directiveName {p q : Position} {t : Token} (h : Reads .directiveName p t q) :
    ∃ c ∈ p.next?, isIdentChar c = true :=
  h.begins Shape.begins_directiveName fun _ => isBlank_eq_false_of_isIdentChar

theorem Reads.next?_name {p q : Position} {t : Token} (h : Reads .name p t q) :
    ∃ c ∈ p.next?, isIdentChar c = true ∧ Text.isNumeric c = false :=
  h.begins Shape.begins_name fun _ hc => isBlank_eq_false_of_isIdentChar hc.1

theorem Reads.next?_number {p q : Position} {t : Token} (h : Reads .number p t q) :
    ∃ c ∈ p.next?, Text.isNumeric c = true :=
  h.begins Shape.begins_number fun _ hc =>
    isBlank_eq_false_of_isIdentChar (isIdentChar_of_isNumeric hc)

theorem ReadsString.next? {p q : Position} {t : Token} (h : ReadsString p t q) :
    p.next? = some '"' := by
  obtain ⟨pieces, hstands, -⟩ := h
  obtain ⟨hrest, -⟩ := (stands_iff rfl (by decide)).mp hstands
  rw [Position.next?, hrest]
  rfl

/-- A fixed text of one character stands wherever this character is the next one. -/
theorem exists_reads_fixed {text : String} {p : Position} {c : Char} (htext : text.toList = [c])
    (hc : Text.isBlank c = false) (h : p.next? = some c) : ∃ t q, Reads (.fixed text) p t q := by
  obtain ⟨more, hmore⟩ := List.head?_eq_some_iff.mp h
  refine ⟨_, ⟨p.skip.location.walk [c], more⟩, (reads_iff (Shape.solid_fixed htext hc)).mpr
    ⟨[c], htext.symm, hmore, rfl, rfl⟩⟩

/-- A number stands wherever the next character is numeric. -/
theorem exists_reads_number {p : Position} {c : Char} (h : p.next? = some c)
    (hc : Text.isNumeric c = true) : ∃ t q, Reads .number p t q := by
  obtain ⟨more, hmore⟩ := List.head?_eq_some_iff.mp h
  have hsplit := (List.takeWhile_append_dropWhile (p := isNumberChar) (l := more)).symm
  refine ⟨_, ⟨p.skip.location.walk (c :: more.takeWhile isNumberChar), _⟩,
    (reads_iff Shape.solid_number).mpr ⟨c :: more.takeWhile isNumberChar, ⟨⟨c, _, rfl, hc, ?_⟩,
      head?_dropWhile_eq_false isNumberChar more⟩, ?_, rfl, rfl⟩⟩
  · exact List.all_eq_true.mp List.all_takeWhile
  · rw [hmore, List.cons_append, ← hsplit]

/-- An identifier where no number stands is a name. -/
theorem Reads.name_of_identifier {p q : Position} {t : Token} (h : Reads .identifier p t q)
    (hnumber : ∀ t q, ¬ Reads .number p t q) : Reads .name p t q := by
  obtain ⟨word, hshape, hrest, hq, ht⟩ := (reads_iff Shape.solid_identifier).mp h
  refine (reads_iff Shape.solid_name).mpr ⟨word, ⟨hshape, fun c hc => ?_⟩, hrest, hq, ht⟩
  cases hnumeric : Text.isNumeric c with
  | false => rfl
  | true =>
      have hnext : p.next? = some c := by
        rw [next?, hrest, List.head?_append, hc]
        rfl
      obtain ⟨number, after, hreads⟩ := exists_reads_number hnext hnumeric
      exact absurd hreads (hnumber number after)

theorem Reads.identifier {p q : Position} {t : Token} (h : Reads .name p t q) :
    Reads .identifier p t q := by
  obtain ⟨word, hshape, hreads⟩ := h
  exact ⟨word, hshape.1, hreads⟩

theorem Reads.not_number {p q : Position} {t : Token} (h : Reads .name p t q) (t' : Token)
    (q' : Position) : ¬ Reads .number p t' q' := by
  intro hnumber
  obtain ⟨c, hc, -, hnumeric⟩ := h.next?_name
  obtain ⟨d, hd, hdigit⟩ := hnumber.next?_number
  obtain rfl := Option.some.inj (hc.symm.trans hd)
  rw [hnumeric] at hdigit
  cases hdigit

theorem Reads.next?_ne_quote {p q : Position} {t : Token} (h : Reads .name p t q) :
    p.next? ≠ some '"' := by
  intro hquote
  obtain ⟨c, hc, hident, -⟩ := h.next?_name
  obtain rfl := Option.some.inj (hc.symm.trans hquote)
  exact absurd hident (by decide)

theorem ReadsString.not_number {p q : Position} {t : Token} (h : ReadsString p t q) (t' : Token)
    (q' : Position) : ¬ Reads .number p t' q' := by
  intro hnumber
  obtain ⟨c, hc, hnumeric⟩ := hnumber.next?_number
  obtain rfl := Option.some.inj (h.next?.symm.trans hc)
  exact absurd hnumeric (by decide)

/-- No keyword is the name of a directive. -/
theorem not_reads_keyword_of_directiveName {text : String} {p q q' : Position} {t t' : Token}
    (htext : (Shape.fixed text).Solid) (hident : ∀ c ∈ text.toList, isIdentChar c = true)
    (h : Reads .directiveName p t q) : ¬ Reads (.keyword text) p t' q' := by
  intro hkeyword
  obtain ⟨word, ⟨⟨-, hword, hafter⟩, hbang⟩, hrest, -⟩ :=
    (reads_iff Shape.solid_directiveName).mp h
  obtain ⟨word', ⟨rfl, hblank⟩, hrest', -⟩ := (reads_iff htext.keyword).mp hkeyword
  have hsame := hrest.symm.trans hrest'
  have hafter' : ∀ c ∈ q'.rest.head?, isIdentChar c = false := by
    intro c hc
    cases hcase : isIdentChar c with
    | false => rfl
    | true => exact absurd (hblank c hc) (by simp [isBlank_eq_false_of_isIdentChar hcase])
  have hq : q.rest = q'.rest := by
    rw [← (takeWhile_append_eq hword hafter).2, hsame, (takeWhile_append_eq hident hafter').2]
  rw [hq] at hbang
  exact absurd (hblank '!' hbang) (by decide)

end Position

namespace Derivation

open Position

variable {p q : Position} {spans : List Span}

theorem SignatureAt.next? {s : Signature} (h : SignatureAt p s spans q) : p.next? = some '(' := by
  cases h with
  | mk hleft _ _ _ => exact hleft.next?_eq rfl (by decide)

theorem TypeAt.next? {type : TypeExpr} (h : TypeAt p type spans q) :
    ∃ c ∈ p.next?, c = '(' ∨ isIdentChar c = true := by
  cases h with
  | named hname _ =>
      obtain ⟨c, hc, hident⟩ := hname.next?_identifier
      exact ⟨c, hc, .inr hident⟩
  | function hs => exact ⟨'(', hs.next?, .inl rfl⟩

theorem BlockAt.next? {b : Block} (h : BlockAt p b spans q) : p.next? = some '{' := by
  cases h with
  | mk hleft _ _ => exact hleft.next?_eq rfl (by decide)

theorem StatementAt.next? {s : Stmt} (h : StatementAt p s spans q) :
    ∃ c ∈ p.next?, c = '{' ∨ c = ':' ∨ isIdentChar c = true := by
  cases h with
  | block hblock => exact ⟨'{', hblock.next?, .inl rfl⟩
  | ifThen hif _ _ | ifElse hif _ _ _ _ =>
      exact ⟨'i', hif.next?_keyword rfl (by decide), .inr (.inr (by decide))⟩
  | ret hmarker _ => exact ⟨':', hmarker.next?_eq rfl (by decide), .inr (.inl rfl)⟩
  | directive hname _ _ =>
      obtain ⟨c, hc, hident⟩ := hname.next?_directiveName
      exact ⟨c, hc, .inr (.inr hident)⟩

/-- No statement begins with the word `else`. -/
theorem StatementAt.not_else {s : Stmt} (h : StatementAt p s spans q) (t : Token) (q' : Position) :
    ¬ Reads (.keyword "else") p t q' := by
  intro helse
  have hnext : p.next? = some 'e' := helse.next?_keyword rfl (by decide)
  cases h with
  | block hblock => exact absurd (hnext.symm.trans hblock.next?) (by decide)
  | ifThen hif _ _ | ifElse hif _ _ _ _ =>
      have hfirst : p.next? = some 'i' := hif.next?_keyword rfl (by decide)
      exact absurd (hnext.symm.trans hfirst) (by decide)
  | ret hmarker _ =>
      have hfirst : p.next? = some ':' := hmarker.next?_eq rfl (by decide)
      exact absurd (hnext.symm.trans hfirst) (by decide)
  | directive hname _ _ =>
      have hident : ∀ c ∈ "else".toList, isIdentChar c = true := List.all_eq_true.mp rfl
      exact not_reads_keyword_of_directiveName Shape.solid_else hident hname helse

theorem DeclarationAt.next? {d : FunctionDecl} (h : DeclarationAt p d spans q) :
    ∃ c ∈ p.next?, isIdentChar c = true := by
  cases h with
  | mk hname _ _ => exact hname.next?_identifier

end Derivation

end KestrelCompiler
