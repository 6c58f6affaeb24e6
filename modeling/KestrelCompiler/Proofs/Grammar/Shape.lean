import KestrelCompiler.Proofs.Grammar.Derivation

/-!
Shapes of lexemes: what they begin with, and that none of them begins with a blank.
-/

namespace KestrelCompiler

namespace Text

theorem blank_not_ident_table :
    (blankRanges.all fun r => (List.range' r.1 (r.2 - r.1 + 1)).all fun n =>
      !inRanges letterRanges n && !inRanges numericRanges n && n ≠ 0x5F) = true := by
  decide +kernel

end Text

theorem isIdentChar_of_isNumeric {c : Char} (h : Text.isNumeric c = true) :
    isIdentChar c = true := by
  simp [isIdentChar, h]

theorem isNumberChar_of_isNumeric {c : Char} (h : Text.isNumeric c = true) :
    isNumberChar c = true := by
  simp [isNumberChar, h]

/-- No blank is a part of a name. -/
theorem isBlank_eq_false_of_isIdentChar {c : Char} (h : isIdentChar c = true) :
    Text.isBlank c = false := by
  cases hblank : Text.isBlank c with
  | false => rfl
  | true =>
      obtain ⟨range, hmem, hlow, hhigh⟩ := Text.exists_of_inRanges hblank
      have hrange := List.all_eq_true.mp Text.blank_not_ident_table range hmem
      have hn := List.all_eq_true.mp hrange c.toNat (by rw [List.mem_range'_1]; omega)
      simp only [Bool.and_eq_true, Bool.not_eq_true', decide_eq_true_eq] at hn
      obtain ⟨⟨hletter, hnumeric⟩, hscore⟩ := hn
      have hne : c ≠ '_' := by
        rintro rfl
        exact hscore rfl
      simp [isIdentChar, Text.isLetter, Text.isNumeric, hletter, hnumeric, hne] at h

/-- The longest run of accepted characters, from both sides. -/
theorem takeWhile_append_eq {α : Type} {p : α → Bool} {word after : List α}
    (hword : ∀ c ∈ word, p c = true) (hafter : ∀ c ∈ after.head?, p c = false) :
    (word ++ after).takeWhile p = word ∧ (word ++ after).dropWhile p = after := by
  rw [List.takeWhile_append_of_pos hword, List.dropWhile_append_of_pos hword]
  cases after with
  | nil => simp
  | cons c rest =>
      have hc : p c = false := hafter c rfl
      simp [hc]

theorem head?_dropWhile_eq_false {α : Type} (p : α → Bool) (text : List α) :
    ∀ c ∈ (text.dropWhile p).head?, p c = false := by
  intro c hc
  have hfind := List.head?_dropWhile_not p text
  rw [Option.mem_def] at hc
  simpa [hc] using hfind

namespace Shape

/-- What the first character of a lexeme is like. -/
def Begins (shape : Shape) (P : Char → Prop) : Prop :=
  ∀ word after, shape word after → ∃ c more, word = c :: more ∧ P c

/-- A lexeme of this shape begins with a character that is not blank. -/
def Solid (shape : Shape) : Prop :=
  Begins shape (Text.isBlank · = false)

theorem Begins.solid {shape : Shape} {P : Char → Prop} (h : Begins shape P)
    (hP : ∀ c, P c → Text.isBlank c = false) : Solid shape := by
  intro word after hword
  obtain ⟨c, more, hword, hc⟩ := h word after hword
  exact ⟨c, more, hword, hP c hc⟩

theorem begins_fixed {text : String} {c : Char} {more : List Char} (h : text.toList = c :: more) :
    Begins (fixed text) (· = c) :=
  fun _ _ hword => ⟨c, more, hword.trans h, rfl⟩

theorem begins_keyword {text : String} {c : Char} {more : List Char}
    (h : text.toList = c :: more) : Begins (keyword text) (· = c) :=
  fun word after hword => begins_fixed h word after hword.1

theorem begins_identifier : Begins identifier (isIdentChar · = true) := by
  intro word after h
  cases word with
  | nil => exact absurd rfl h.1
  | cons c more => exact ⟨c, more, rfl, h.2.1 c List.mem_cons_self⟩

theorem begins_directiveName : Begins directiveName (isIdentChar · = true) :=
  fun word after h => begins_identifier word after h.1

theorem begins_name : Begins name fun c => isIdentChar c = true ∧ Text.isNumeric c = false := by
  intro word after h
  obtain ⟨c, more, rfl, hc⟩ := begins_identifier word after h.1
  exact ⟨c, more, rfl, hc, h.2 c rfl⟩

theorem begins_number : Begins number (Text.isNumeric · = true) := by
  rintro word after ⟨⟨first, more, hword, hfirst, -⟩, -⟩
  exact ⟨first, more, hword, hfirst⟩

theorem solid_fixed {text : String} {c : Char} {more : List Char} (h : text.toList = c :: more)
    (hc : Text.isBlank c = false) : Solid (fixed text) :=
  (begins_fixed h).solid fun _ hd => hd ▸ hc

theorem solid_star : Solid (fixed "*") := solid_fixed rfl (by decide)
theorem solid_leftParen : Solid (fixed "(") := solid_fixed rfl (by decide)
theorem solid_rightParen : Solid (fixed ")") := solid_fixed rfl (by decide)
theorem solid_comma : Solid (fixed ",") := solid_fixed rfl (by decide)
theorem solid_leftBrace : Solid (fixed "\x7b") := solid_fixed rfl (by decide)
theorem solid_rightBrace : Solid (fixed "\x7d") := solid_fixed rfl (by decide)
theorem solid_colon : Solid (fixed ":") := solid_fixed rfl (by decide)
theorem solid_bang : Solid (fixed "!") := solid_fixed rfl (by decide)
theorem solid_plus : Solid (fixed "+") := solid_fixed rfl (by decide)
theorem solid_minus : Solid (fixed "-") := solid_fixed rfl (by decide)
theorem solid_less : Solid (fixed "<") := solid_fixed rfl (by decide)
theorem solid_if : Solid (fixed "if") := solid_fixed rfl (by decide)
theorem solid_else : Solid (fixed "else") := solid_fixed rfl (by decide)

theorem Solid.ne_nil {text : String} (h : Solid (fixed text)) : text.toList ≠ [] := by
  obtain ⟨c, more, hword, -⟩ := h text.toList [] rfl
  rw [hword]
  exact List.cons_ne_nil c more

theorem Solid.keyword {text : String} (h : Solid (fixed text)) : Solid (Shape.keyword text) :=
  fun word after hword => h word after hword.1

theorem solid_identifier : Solid identifier :=
  begins_identifier.solid fun _ => isBlank_eq_false_of_isIdentChar

theorem solid_directiveName : Solid directiveName :=
  begins_directiveName.solid fun _ => isBlank_eq_false_of_isIdentChar

theorem solid_name : Solid name :=
  begins_name.solid fun _ h => isBlank_eq_false_of_isIdentChar h.1

theorem solid_number : Solid number :=
  begins_number.solid fun _ h => isBlank_eq_false_of_isIdentChar (isIdentChar_of_isNumeric h)

end Shape

end KestrelCompiler
