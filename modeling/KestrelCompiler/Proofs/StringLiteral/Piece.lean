import KestrelCompiler.StringLiteral
import KestrelCompiler.Proofs.Reading.Cursor

/-!
The inside of string literals, as a sequence of pieces. A piece is written in one way and stands for
one character. Pieces form a prefix code, so a text is the writing of at most one sequence of them,
and the reader decodes exactly the texts that are such a writing with a quotation mark after it.
-/

namespace KestrelCompiler.StringLiteral

/-- A hexadecimal digit of either case. -/
abbrev HexDigit := { c : Char // (Text.hexValue? c).isSome }

def HexDigit.value (d : HexDigit) : Nat :=
  (Text.hexValue? d.val).get d.property

/-- The number written by some digits, the most significant one first. -/
def HexDigit.number (digits : List HexDigit) : Nat :=
  Text.ofDigits 16 (digits.map value)

/-- The escapes of one letter. -/
inductive Letter where
  | n
  | r
  | t
  | backslash
  | quote
  deriving DecidableEq

namespace Letter

def char : Letter → Char
  | n => 'n'
  | r => 'r'
  | t => 't'
  | backslash => '\\'
  | quote => '"'

/-- The character that the letter names. -/
def value : Letter → Char
  | n => '\n'
  | r => '\r'
  | t => '\t'
  | backslash => '\\'
  | quote => '"'

theorem char_injective {a b : Letter} (h : a.char = b.char) : a = b := by
  cases a <;> cases b <;> first | rfl | cases h

end Letter

/-- One character of a literal as it may be written. -/
inductive Piece where
  | raw (c : Char) (plain : c ≠ '"' ∧ c ≠ '\\' ∧ c ≠ '\n' ∧ c ≠ '\r')
  | named (letter : Letter)
  | unicode (a b c d : HexDigit) (scalar : Text.isSurrogate (HexDigit.number [a, b, c, d]) = false)
  | byte (a b : HexDigit)

namespace Piece

def spell : Piece → List Char
  | raw c _ => [c]
  | named letter => ['\\', letter.char]
  | unicode a b c d _ => ['\\', 'u', '{', a.val, b.val, c.val, d.val, '}']
  | byte a b => ['\\', 'x', '{', a.val, b.val, '}']

def value : Piece → Char
  | raw c _ => c
  | named letter => letter.value
  | unicode a b c d _ => Char.ofNat (HexDigit.number [a, b, c, d])
  | byte a b => Char.ofNat (HexDigit.number [a, b])

def isEscape : Piece → Bool
  | raw .. => false
  | _ => true

/-- The writing of a sequence of pieces. -/
def spellAll (pieces : List Piece) : List Char :=
  pieces.flatMap spell

/-- The characters that a sequence of pieces stands for. -/
def values (pieces : List Piece) : List Char :=
  pieces.map value

@[simp] theorem spellAll_nil : spellAll [] = [] := rfl

@[simp] theorem spellAll_cons (p : Piece) (rest : List Piece) :
    spellAll (p :: rest) = p.spell ++ spellAll rest := rfl

theorem length_spell_pos (p : Piece) : 0 < p.spell.length := by
  cases p <;> simp [spell]

/-- No piece begins with a quotation mark. -/
theorem spell_append_ne_quote (p : Piece) (after rest : List Char) :
    p.spell ++ after ≠ '"' :: rest := by
  cases p with
  | raw c plain => simp [spell, plain.1]
  | named _ | unicode _ _ _ _ _ | byte _ _ => simp [spell]

/-- No writing of a piece begins the writing of another one. -/
theorem spell_append_inj {p q : Piece} {after rest : List Char}
    (h : p.spell ++ after = q.spell ++ rest) : p = q ∧ after = rest := by
  cases p with
  | raw c plain =>
      cases q with
      | raw d _ => simpa [spell] using h
      | named _ | unicode _ _ _ _ _ | byte _ _ => simp [spell, plain.2.1] at h
  | named letter =>
      cases q with
      | raw d plain => simp [spell, plain.2.1.symm] at h
      | named other =>
          simp only [spell, List.cons_append, List.nil_append, List.cons.injEq, true_and] at h
          exact ⟨congrArg named (Letter.char_injective h.1), h.2⟩
      | unicode _ _ _ _ _ | byte _ _ => cases letter <;> simp [spell, Letter.char] at h
  | unicode a b c d scalar =>
      cases q with
      | raw d plain => simp [spell, plain.2.1.symm] at h
      | named letter => cases letter <;> simp [spell, Letter.char] at h
      | unicode a' b' c' d' _ =>
          simp only [spell, List.cons_append, List.nil_append, List.cons.injEq, true_and,
            ← Subtype.ext_iff] at h
          obtain ⟨rfl, rfl, rfl, rfl, hafter⟩ := h
          exact ⟨rfl, hafter⟩
      | byte _ _ => simp [spell] at h
  | byte a b =>
      cases q with
      | raw d plain => simp [spell, plain.2.1.symm] at h
      | named letter => cases letter <;> simp [spell, Letter.char] at h
      | unicode _ _ _ _ _ => simp [spell] at h
      | byte a' b' =>
          simp only [spell, List.cons_append, List.nil_append, List.cons.injEq, true_and,
            ← Subtype.ext_iff] at h
          obtain ⟨rfl, rfl, hafter⟩ := h
          exact ⟨rfl, hafter⟩

theorem spellAll_quote_inj {ps qs : List Piece} {after rest : List Char}
    (h : spellAll ps ++ '"' :: after = spellAll qs ++ '"' :: rest) : ps = qs ∧ after = rest := by
  induction ps generalizing qs with
  | nil =>
      cases qs with
      | nil => simpa using h
      | cons q qs =>
          rw [spellAll_cons, List.append_assoc] at h
          exact absurd h.symm (spell_append_ne_quote _ _ _)
  | cons p ps ih =>
      cases qs with
      | nil =>
          rw [spellAll_cons, List.append_assoc] at h
          exact absurd h (spell_append_ne_quote _ _ _)
      | cons q qs =>
          rw [spellAll_cons, spellAll_cons, List.append_assoc, List.append_assoc] at h
          obtain ⟨rfl, htail⟩ := spell_append_inj h
          obtain ⟨rfl, hafter⟩ := ih htail
          exact ⟨rfl, hafter⟩

/-- A way to write a character. -/
def ofChar (c : Char) : Piece :=
  if c = '"' then named .quote
  else if c = '\\' then named .backslash
  else if c = '\n' then named .n
  else if h : c ≠ '"' ∧ c ≠ '\\' ∧ c ≠ '\n' ∧ c ≠ '\r' then raw c h
  else named .r

theorem value_ofChar (c : Char) : (ofChar c).value = c := by
  unfold ofChar
  split
  · next h => exact h.symm
  split
  · next h => exact h.symm
  split
  · next h => exact h.symm
  split
  · rfl
  · next hquote hback hline hplain =>
      by_cases hreturn : c = '\r'
      · exact hreturn.symm
      · exact absurd ⟨hquote, hback, hline, hreturn⟩ hplain

theorem values_map_ofChar (text : List Char) : values (text.map ofChar) = text := by
  rw [values, List.map_map]
  exact (List.map_congr_left fun c _ => value_ofChar c).trans (List.map_id text)

/-- Without escapes a literal is written as what it stands for. -/
theorem spellAll_eq_values {pieces : List Piece} (h : pieces.any isEscape = false) :
    spellAll pieces = values pieces := by
  induction pieces with
  | nil => rfl
  | cons p rest ih =>
      rw [List.any_cons, Bool.or_eq_false_iff] at h
      cases p with
      | raw c _ => rw [spellAll_cons, ih h.2]; rfl
      | named _ | unicode _ _ _ _ _ | byte _ _ => cases h.1

/-- The writing of a whole literal. -/
def literal (pieces : List Piece) : List Char :=
  '"' :: (spellAll pieces ++ ['"'])

theorem literal_append_inj {ps qs : List Piece} {after rest : List Char}
    (h : literal ps ++ after = literal qs ++ rest) : ps = qs ∧ after = rest := by
  apply spellAll_quote_inj
  simpa [literal] using h

/-- The token of a literal that begins at `start`. -/
def token (start : Location) (pieces : List Piece) : Token where
  span := ⟨start, start.walk (literal pieces)⟩
  text := String.ofList (values pieces)
  decoded := pieces.any isEscape

/-- Without escapes the text of the token stands in the source between the quotation marks. -/
theorem token_eq_borrowed {c : Cursor} (h : 0 ≤ c.location.offset) {pieces : List Piece}
    {after : List Char} (htext : c.rest = literal pieces ++ after)
    (hplain : pieces.any isEscape = false) :
    token c.location pieces =
      .borrowed c.source (token c.location pieces).span
        ((token c.location pieces).span.start.offset + 1)
        ((token c.location pieces).span.stop.offset - 1) := by
  have hinside : (c.moveTo (c.location.walk ['"'])).rest = values pieces ++ '"' :: after := by
    apply Cursor.rest_moveTo_walk h
    rw [htext, literal, spellAll_eq_values hplain]
    simp
  have hslice := Cursor.slice_walk (Cursor.nonneg_walk h ['"']) hinside
  have hstart : (c.location.walk ['"']).offset = c.location.offset + 1 := by
    rw [Location.offset_walk]
    rfl
  have hstop : ((c.location.walk ['"']).walk (values pieces)).offset =
      (c.location.walk (literal pieces)).offset - 1 := by
    simp only [Location.offset_walk, literal, spellAll_eq_values hplain, List.length_cons,
      List.length_append, List.length_nil]
    omega
  rw [Cursor.moveTo_source, Cursor.moveTo_location, hstart, hstop] at hslice
  simp only [token, Token.borrowed, hplain, hslice]

end Piece

end KestrelCompiler.StringLiteral
