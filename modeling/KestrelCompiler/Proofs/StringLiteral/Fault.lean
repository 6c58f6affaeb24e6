import KestrelCompiler.Proofs.StringLiteral.Decoding

/-!
Malformed string literals. The reader reports a fault after some whole pieces and the beginning of
another one, so that what was read up to there can still become a literal. Only the digits of a
surrogate can no longer be put right once the first two of them are read.
-/

namespace KestrelCompiler.StringLiteral

open Piece

/-- Whatever digits follow, the first two make the number a surrogate. -/
def ForcesSurrogate (digits : List HexDigit) : Prop :=
  ∃ a b more, digits = a :: b :: more ∧ 0xD8 ≤ HexDigit.number [a, b] ∧
    HexDigit.number [a, b] ≤ 0xDF

/-- The text begins the writing of a piece. -/
def Begins (text : List Char) : Prop :=
  ∃ (p : Piece) (rest : List Char), p.spell = text ++ rest

/-- The beginning of an escape whose digits force a surrogate. -/
def surrogateEscape (digits : List HexDigit) : List Char :=
  '\\' :: 'u' :: '{' :: digits.map Subtype.val

/-- What stands before a fault inside a literal: some pieces and then the beginning of one, or the
digits of a surrogate. -/
def Unfinished (text : List Char) : Prop :=
  ∃ (pieces : List Piece) (last : List Char), text = spellAll pieces ++ last ∧
    (Begins last ∨
      ∃ digits, last = surrogateEscape digits ∧ digits.length ≤ 4 ∧ ForcesSurrogate digits)

theorem HexDigit.value_lt (d : HexDigit) : d.value < 16 :=
  hexValue?_lt (hexValue?_digit d)

theorem HexDigit.number_two (a b : HexDigit) : number [a, b] = 16 * a.value + b.value := by
  have hnumber : number [a, b] = 16 * (16 * 0 + a.value) + b.value := rfl
  omega

/-- A number of four digits is a surrogate only if its first two digits say so. -/
theorem isSurrogate_unicode {a b : HexDigit} {more : List HexDigit}
    (h : ¬ ForcesSurrogate (a :: b :: more)) (c d : HexDigit) :
    Text.isSurrogate (HexDigit.number [a, b, c, d]) = false := by
  have hnumber : HexDigit.number [a, b, c, d] =
      16 * (16 * (16 * (16 * 0 + a.value) + b.value) + c.value) + d.value := rfl
  have hrange : ¬ (0xD8 ≤ 16 * a.value + b.value ∧ 16 * a.value + b.value ≤ 0xDF) := by
    rw [← HexDigit.number_two]
    exact fun hrange => h ⟨a, b, more, rfl, hrange⟩
  have hc := c.value_lt
  have hd := d.value_lt
  simp only [Text.isSurrogate, hnumber, Bool.and_eq_false_iff, decide_eq_false_iff_not]
  omega

def HexDigit.zero : HexDigit := ⟨'0', by decide⟩

theorem not_forcesSurrogate_zero (a : HexDigit) : ¬ ForcesSurrogate [a, .zero] := by
  rintro ⟨_, _, more, hdigits, hlow, hhigh⟩
  cases hdigits
  have hzero : HexDigit.zero.value = 0 := by decide
  rw [HexDigit.number_two, hzero] at hlow hhigh
  omega

/-- The digits of an escape can be followed by zeros up to the full number of them. -/
theorem begins_byte {digits : List HexDigit} (h : digits.length ≤ 2) :
    Begins ('\\' :: 'x' :: '{' :: digits.map Subtype.val) := by
  match digits, h with
  | [], _ => exact ⟨.byte .zero .zero, ['0', '0', '}'], rfl⟩
  | [a], _ => exact ⟨.byte a .zero, ['0', '}'], rfl⟩
  | [a, b], _ => exact ⟨.byte a b, ['}'], rfl⟩

theorem begins_unicode {digits : List HexDigit} (h : digits.length ≤ 4)
    (hscalar : ¬ ForcesSurrogate digits) :
    Begins ('\\' :: 'u' :: '{' :: digits.map Subtype.val) := by
  have hzero := fun a => isSurrogate_unicode (not_forcesSurrogate_zero a) .zero .zero
  match digits, h with
  | [], _ => exact ⟨.unicode .zero .zero .zero .zero (hzero _), ['0', '0', '0', '0', '}'], rfl⟩
  | [a], _ => exact ⟨.unicode a .zero .zero .zero (hzero a), ['0', '0', '0', '}'], rfl⟩
  | [a, b], _ =>
    exact ⟨.unicode a b .zero .zero (isSurrogate_unicode hscalar _ _), ['0', '0', '}'], rfl⟩
  | [a, b, c], _ => exact ⟨.unicode a b c .zero (isSurrogate_unicode hscalar _ _), ['0', '}'], rfl⟩
  | [a, b, c, d], _ => exact ⟨.unicode a b c d (isSurrogate_unicode hscalar _ _), ['}'], rfl⟩

theorem begins_digits {letter : Char} {n : Nat} {digits : List HexDigit}
    (hletter : escapeDigits? letter = some n) (h : digits.length ≤ n) :
    Unfinished ('\\' :: letter :: '{' :: digits.map Subtype.val) := by
  refine ⟨[], _, rfl, ?_⟩
  obtain ⟨rfl, rfl⟩ | ⟨rfl, rfl⟩ := escapeDigits?_eq_some hletter
  · by_cases hscalar : ForcesSurrogate digits
    · exact .inr ⟨digits, rfl, h, hscalar⟩
    · exact .inl (begins_unicode h hscalar)
  · exact .inl (begins_byte h)

theorem unfinished_letter {letter : Char} {n : Nat} (hletter : escapeDigits? letter = some n) :
    Unfinished ['\\', letter] := by
  obtain ⟨rfl, -⟩ | ⟨rfl, -⟩ := escapeDigits?_eq_some hletter
  · have hzero := isSurrogate_unicode (not_forcesSurrogate_zero .zero) .zero .zero
    exact ⟨[], _, rfl, .inl ⟨.unicode .zero .zero .zero .zero hzero,
      ['{', '0', '0', '0', '0', '}'], rfl⟩⟩
  · exact ⟨[], _, rfl, .inl ⟨.byte .zero .zero, ['{', '0', '0', '}'], rfl⟩⟩

theorem Unfinished.cons {text : List Char} (h : Unfinished text) (p : Piece) :
    Unfinished (p.spell ++ text) := by
  obtain ⟨pieces, last, rfl, hlast⟩ := h
  exact ⟨p :: pieces, last, by rw [spellAll_cons, List.append_assoc], hlast⟩

theorem unfinished_nil : Unfinished [] :=
  ⟨[], [], rfl, .inl ⟨.named .n, ['\\', 'n'], rfl⟩⟩

section Reading

variable {read : List Char} {decoded : Bool} {l first : Location} {text : List Char}
  {problem : Problem} {value : Nat}

/-- A fault at the closing brace is reported there, and that of a surrogate where its digits begin;
otherwise the fault comes later. -/
theorem readBody_closing_error
    (h : readBody (.closing value first) read decoded l text = .error problem) :
    problem.location = l ∨ problem.location = first ∨
      ∃ after read', text = '}' :: after ∧ Text.isSurrogate value = false ∧
        readBody .plain read' decoded (l.advance '}') after = .error problem := by
  cases text with
  | nil =>
      rw [readBody] at h
      cases h
      exact .inl rfl
  | cons brace after =>
      rw [readBody] at h
      split at h
      · cases h
        exact .inl rfl
      · next hbrace =>
          rw [Decidable.not_not.mp hbrace] at h ⊢
          split at h
          · cases h
            exact .inr (.inl rfl)
          · next hscalar => exact .inr (.inr ⟨after, _, rfl, Bool.eq_false_iff.mpr hscalar, h⟩)

/-- A fault among the digits comes after some of them or where they begin; otherwise they are in
order and the fault comes later. -/
theorem readBody_digits_error {left : Nat} (hleft : left ≠ 0)
    (h : readBody (.digits left value first) read decoded l text = .error problem) :
    ∃ (digits : List HexDigit) (after : List Char), digits.length ≤ left ∧
      text = digits.map Subtype.val ++ after ∧
      (problem.location = l.walk (digits.map Subtype.val) ∨ problem.location = first ∨
        digits.length = left ∧ ∃ after' read', after = '}' :: after' ∧
          Text.isSurrogate (HexDigit.numberFrom value digits) = false ∧
          readBody .plain read' decoded ((l.walk (digits.map Subtype.val)).advance '}') after' =
            .error problem) := by
  induction left generalizing value l text with
  | zero => exact absurd rfl hleft
  | succ left ih =>
      cases text with
      | nil =>
          rw [readBody] at h
          cases h
          exact ⟨[], [], Nat.zero_le _, rfl, .inl rfl⟩
      | cons c text =>
          rw [readBody] at h
          split at h
          · next d hd =>
              let digit : HexDigit := ⟨c, Option.isSome_of_eq_some hd⟩
              have hvalue : digit.value = d :=
                Option.some.inj ((hexValue?_digit digit).symm.trans hd)
              rw [← hvalue] at h
              cases left with
              | zero =>
                  simp only [Nat.zero_add, Nat.le_refl, if_true] at h
                  refine ⟨[digit], text, Nat.le_refl 1, rfl, ?_⟩
                  exact (readBody_closing_error h).imp_right fun hlater =>
                    hlater.imp_right fun hread => ⟨rfl, hread⟩
              | succ left =>
                  simp only [Nat.reduceLeDiff, if_false, Nat.add_sub_cancel] at h
                  obtain ⟨digits, after, hlength, rfl, hcases⟩ := ih (Nat.succ_ne_zero left) h
                  refine ⟨digit :: digits, after, Nat.succ_le_succ hlength, rfl, ?_⟩
                  exact hcases.imp_right fun hlater =>
                    hlater.imp_right fun hread => ⟨congrArg Nat.succ hread.1, hread.2⟩
          · cases h
            exact ⟨[], c :: text, Nat.zero_le _, rfl, .inl rfl⟩

/-- After `front` the reader finds the fault before the piece that `front` begins is whole, or it
reads the piece to its end and finds the fault later. -/
def BreaksOff (front : List Char) (l : Location) (text : List Char) (problem : Problem) : Prop :=
  (∃ last after, text = last ++ after ∧ problem.location = l.walk last ∧
    Unfinished (front ++ last)) ∨
  ∃ (p : Piece) (tail after read : List Char) (decoded : Bool), p.spell = front ++ tail ∧
    text = tail ++ after ∧ readBody .plain read decoded (l.walk tail) after = .error problem

theorem BreaksOff.step {front : List Char} {c : Char}
    (h : BreaksOff (front ++ [c]) (l.advance c) text problem) :
    BreaksOff front l (c :: text) problem := by
  rcases h with ⟨last, after, rfl, hlocation, hlast⟩ | ⟨p, tail, after, _, _, hp, rfl, hread⟩
  · rw [List.append_assoc] at hlast
    exact .inl ⟨c :: last, after, rfl, hlocation, hlast⟩
  · rw [List.append_assoc] at hp
    exact .inr ⟨p, c :: tail, after, _, _, hp, rfl, hread⟩

theorem readBody_opening_error {letter : Char} {n : Nat} (hletter : escapeDigits? letter = some n)
    (h : readBody (.opening n) read decoded l text = .error problem) :
    BreaksOff ['\\', letter] l text problem := by
  have hne : n ≠ 0 := by
    rcases escapeDigits?_eq_some hletter with ⟨-, rfl⟩ | ⟨-, rfl⟩ <;> decide
  cases text with
  | nil =>
      rw [readBody] at h
      cases h
      exact .inl ⟨[], [], rfl, rfl, unfinished_letter hletter⟩
  | cons brace text =>
      rw [readBody] at h
      split at h
      · next hbrace =>
          subst hbrace
          obtain ⟨digits, after, hlength, rfl, hcases⟩ := readBody_digits_error hne h
          rcases hcases with hlocation | hfirst | ⟨hall, after', read', rfl, hscalar, hread⟩
          · exact .inl ⟨'{' :: digits.map Subtype.val, after, rfl, hlocation,
              begins_digits hletter hlength⟩
          · exact .inl ⟨['{'], digits.map Subtype.val ++ after, rfl, hfirst,
              @begins_digits letter n [] hletter (Nat.zero_le _)⟩
          · rw [HexDigit.numberFrom_zero] at hscalar
            obtain ⟨p, hp⟩ := exists_piece_of_digits (hall ▸ hletter) hscalar
            refine .inr
              ⟨p, '{' :: (digits.map Subtype.val ++ ['}']), after', read', decoded, hp, ?_, ?_⟩
            · simp
            · simpa [Location.walk_append] using hread
      · cases h
        exact .inl ⟨[], brace :: text, rfl, rfl, unfinished_letter hletter⟩

/-- A fault after a backslash lies in the escape, or behind a whole one. -/
theorem readBody_escape_error (h : readBody .escape read decoded l text = .error problem) :
    BreaksOff ['\\'] l text problem := by
  have hbackslash : Unfinished ['\\'] := ⟨[], _, rfl, .inl ⟨.named .n, ['n'], rfl⟩⟩
  cases text with
  | nil =>
      rw [readBody] at h
      cases h
      exact .inl ⟨[], [], rfl, rfl, hbackslash⟩
  | cons c text =>
      rw [readBody] at h
      split at h
      · next value _ hnamed =>
          obtain ⟨letter, rfl, rfl⟩ := exists_letter_of_namedEscape? hnamed
          exact .inr ⟨.named letter, [letter.char], text, _, _, rfl, rfl, h⟩
      · next digits _ hdigits => exact (readBody_opening_error hdigits h).step
      · split at h
        · cases h
          exact .inl ⟨[], c :: text, rfl, rfl, hbackslash⟩
        · cases h
          exact .inl ⟨[], c :: text, rfl, rfl, hbackslash⟩

theorem readBody_plain_error (h : readBody .plain read decoded l text = .error problem) :
    BreaksOff [] l text problem := by
  cases text with
  | nil =>
      rw [readBody] at h
      cases h
      exact .inl ⟨[], [], rfl, rfl, unfinished_nil⟩
  | cons c text =>
      rw [readBody] at h
      split at h
      · cases h
      split at h
      · next hback =>
          subst hback
          exact (readBody_escape_error h).step
      · next hquote hback =>
          split at h
          · cases h
            exact .inl ⟨[], c :: text, rfl, rfl, unfinished_nil⟩
          · next hbreak =>
              simp only [Bool.or_eq_true, decide_eq_true_eq, not_or] at hbreak
              exact .inr ⟨.raw c ⟨hquote, hback, hbreak⟩, [c], text, _, _, rfl, rfl, h⟩

/-- A fault is reported where the text up to it is the beginning of a literal. -/
theorem readBody_error (h : readBody .plain read decoded l text = .error problem) :
    ∃ front after, text = front ++ after ∧ problem.location = l.walk front ∧ Unfinished front := by
  -- A piece takes several characters, so the induction is on the length of the text.
  induction hn : text.length using Nat.strongRecOn generalizing read decoded l text with
  | ind n ih =>
      subst hn
      rcases readBody_plain_error h with hfault | ⟨p, _, after, _, _, rfl, rfl, hread⟩
      · exact hfault
      · have hshorter : after.length < (p.spell ++ after).length := by
          have hpos := length_spell_pos p
          rw [List.length_append]
          omega
        obtain ⟨front, rest, rfl, hlocation, hfront⟩ := ih after.length hshorter hread rfl
        refine ⟨p.spell ++ front, rest, (List.append_assoc _ _ _).symm, ?_, hfront.cons p⟩
        rw [hlocation, Location.walk_append]

end Reading

/-- The rule fails after a quotation mark and the beginning of a literal. -/
theorem stringLiteral_failed {c c' : Cursor} (h : 0 ≤ c.location.offset) {problem : Problem}
    (hfailed : Rule.stringLiteral c = (.failed problem, c')) :
    ∃ front after, c.skipBlank.rest = '"' :: front ++ after ∧
      problem.location = c.skipBlank.location.walk ('"' :: front) ∧ Unfinished front := by
  have hblank := Cursor.nonneg_skipBlank h
  simp only [Rule.stringLiteral] at hfailed
  split at hfailed
  · next mark hmark =>
      obtain ⟨-, ⟨body, hbody⟩, rfl⟩ := (Cursor.literal_iff hblank).mp hmark
      rw [textAt_walk hblank hbody] at hfailed
      split at hfailed
      · cases hfailed
      · next hread =>
          cases hfailed
          obtain ⟨front, after, rfl, hlocation, hfront⟩ := readBody_error hread
          exact ⟨front, after, hbody, hlocation, hfront⟩
  · cases hfailed

end KestrelCompiler.StringLiteral
