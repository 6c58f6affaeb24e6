import KestrelCompiler.Proofs.StringLiteral.Piece

/-!
The reader of string literals against the sequences of pieces. What it does with one piece is stated
for each kind of piece; a whole body follows by induction on the pieces, and the other direction by
induction on the length of the text.
-/

namespace KestrelCompiler.StringLiteral

open Piece

theorem namedEscape?_char (letter : Letter) : namedEscape? letter.char = some letter.value := by
  cases letter <;> rfl

theorem exists_letter_of_namedEscape? {c value : Char} (h : namedEscape? c = some value) :
    ∃ letter : Letter, letter.char = c ∧ letter.value = value := by
  unfold namedEscape? at h
  split at h
  · exact ⟨.n, rfl, Option.some.inj h⟩
  · exact ⟨.r, rfl, Option.some.inj h⟩
  · exact ⟨.t, rfl, Option.some.inj h⟩
  · exact ⟨.backslash, rfl, Option.some.inj h⟩
  · exact ⟨.quote, rfl, Option.some.inj h⟩
  · cases h

theorem escapeDigits?_eq_some {c : Char} {digits : Nat} (h : escapeDigits? c = some digits) :
    c = 'u' ∧ digits = 4 ∨ c = 'x' ∧ digits = 2 := by
  unfold escapeDigits? at h
  split at h
  · exact .inl ⟨rfl, (Option.some.inj h).symm⟩
  · exact .inr ⟨rfl, (Option.some.inj h).symm⟩
  · cases h

theorem hexValue?_digit (d : HexDigit) : Text.hexValue? d.val = some d.value :=
  (Option.some_get d.property).symm

theorem hexValue?_lt {c : Char} {value : Nat} (h : Text.hexValue? c = some value) : value < 16 := by
  simp only [Text.hexValue?, Bool.and_eq_true, decide_eq_true_eq, Char.le_def,
    UInt32.le_iff_toNat_le] at h
  split at h
  · next hrange =>
      obtain rfl := Option.some.inj h
      have : c.toNat ≤ 57 := hrange.2
      have : '0'.toNat = 48 := rfl
      omega
  split at h
  · next hrange =>
      obtain rfl := Option.some.inj h
      have : c.toNat ≤ 102 := hrange.2
      have : 'a'.toNat = 97 := rfl
      omega
  split at h
  · next hrange =>
      obtain rfl := Option.some.inj h
      have : c.toNat ≤ 70 := hrange.2
      have : 'A'.toNat = 65 := rfl
      omega
  · cases h

/-- Two digits are too few for a surrogate. -/
theorem isSurrogate_byte (a b : HexDigit) :
    Text.isSurrogate (HexDigit.number [a, b]) = false := by
  have ha := hexValue?_lt (hexValue?_digit a)
  have hb := hexValue?_lt (hexValue?_digit b)
  have hnumber : HexDigit.number [a, b] = 16 * (16 * 0 + a.value) + b.value := rfl
  simp only [Text.isSurrogate, hnumber, Bool.and_eq_false_iff, decide_eq_false_iff_not]
  omega

/-- The number that some digits add to the ones read before. -/
def HexDigit.numberFrom (value : Nat) (digits : List HexDigit) : Nat :=
  digits.foldl (fun n d => 16 * n + d.value) value

theorem HexDigit.numberFrom_zero (digits : List HexDigit) : numberFrom 0 digits = number digits := by
  rw [number, Text.ofDigits, List.foldl_map, numberFrom]

section Reading

variable {read : List Char} {decoded : Bool} {l : Location} {rest : List Char}

theorem readBody_quote :
    readBody .plain read decoded l ('"' :: rest) = .ok ⟨read.reverse, decoded, l⟩ := by
  simp only [readBody, if_true]

theorem readBody_backslash :
    readBody .plain read decoded l ('\\' :: rest) =
      readBody .escape read true (l.advance '\\') rest := by
  rw [readBody, if_neg (by decide), if_pos rfl]

/-- Digits are read up to the closing brace, where the number has to be no surrogate. -/
theorem readBody_digits (digits : List HexDigit) (value : Nat) (first : Location)
    (hne : digits ≠ []) (hscalar : Text.isSurrogate (HexDigit.numberFrom value digits) = false) :
    readBody (.digits digits.length value first) read decoded l
        (digits.map Subtype.val ++ '}' :: rest) =
      readBody .plain (Char.ofNat (HexDigit.numberFrom value digits) :: read) decoded
        ((l.walk (digits.map Subtype.val)).advance '}') rest := by
  induction digits generalizing value l with
  | nil => exact absurd rfl hne
  | cons d tail ih =>
      simp only [List.map_cons, List.cons_append, readBody, hexValue?_digit, Location.walk_cons]
      cases tail with
      | nil =>
          simp only [List.length_singleton, Nat.le_refl, if_true, List.map_nil, List.nil_append,
            Location.walk_nil]
          rw [readBody, if_neg (by simp), if_neg]
          · rfl
          · simpa [HexDigit.numberFrom] using hscalar
      | cons e tail =>
          rw [if_neg (by simp [List.length_cons]), List.length_cons, Nat.add_sub_cancel]
          exact ih (16 * value + d.value) (by simp) hscalar

theorem readBody_spell (p : Piece) :
    readBody .plain read decoded l (p.spell ++ rest) =
      readBody .plain (p.value :: read) (decoded || p.isEscape) (l.walk p.spell) rest := by
  cases p with
  | raw c plain =>
      simp only [spell, value, isEscape, List.cons_append, List.nil_append, Location.walk_cons,
        Location.walk_nil, Bool.or_false]
      rw [readBody, if_neg plain.1, if_neg plain.2.1, if_neg (by simp [plain.2.2])]
  | named letter =>
      simp only [spell, value, isEscape, List.cons_append, List.nil_append, Location.walk_cons,
        Location.walk_nil, Bool.or_true]
      rw [readBody_backslash, readBody, namedEscape?_char]
  | unicode a b c d scalar =>
      have hread := @readBody_digits read true (((l.advance '\\').advance 'u').advance '{') rest
        [a, b, c, d] 0 (((l.advance '\\').advance 'u').advance '{') (by simp)
        (by rw [HexDigit.numberFrom_zero]; exact scalar)
      rw [HexDigit.numberFrom_zero] at hread
      simp only [spell, value, isEscape, List.cons_append, List.nil_append, Location.walk_cons,
        Location.walk_nil, Bool.or_true]
      rw [readBody_backslash, readBody]
      simpa [namedEscape?, escapeDigits?, readBody] using hread
  | byte a b =>
      have hread := @readBody_digits read true (((l.advance '\\').advance 'x').advance '{') rest
        [a, b] 0 (((l.advance '\\').advance 'x').advance '{') (by simp)
        (by rw [HexDigit.numberFrom_zero]; exact isSurrogate_byte a b)
      rw [HexDigit.numberFrom_zero] at hread
      simp only [spell, value, isEscape, List.cons_append, List.nil_append, Location.walk_cons,
        Location.walk_nil, Bool.or_true]
      rw [readBody_backslash, readBody]
      simpa [namedEscape?, escapeDigits?, readBody] using hread

theorem readBody_pieces (pieces : List Piece) :
    readBody .plain read decoded l (spellAll pieces ++ '"' :: rest) =
      .ok ⟨read.reverse ++ values pieces, decoded || pieces.any isEscape,
        l.walk (spellAll pieces)⟩ := by
  induction pieces generalizing read decoded l with
  | nil =>
      rw [spellAll_nil, List.nil_append, readBody_quote]
      simp [values]
  | cons p pieces ih =>
      rw [spellAll_cons, List.append_assoc, readBody_spell, ih, Location.walk_append]
      simp [values, Bool.or_assoc]

end Reading

/-- Reading digits to a result, the reader has met as many digits as it asked for, a brace, and no
surrogate. -/
theorem exists_digits_of_readBody {left value : Nat} {first : Location} {read : List Char}
    {decoded : Bool} {l : Location} {text : List Char} {body : Body} (hleft : left ≠ 0)
    (h : readBody (.digits left value first) read decoded l text = .ok body) :
    ∃ (digits : List HexDigit) (after read' : List Char) (l' : Location),
      digits.length = left ∧ text = digits.map Subtype.val ++ '}' :: after ∧
        Text.isSurrogate (HexDigit.numberFrom value digits) = false ∧
        readBody .plain read' decoded l' after = .ok body := by
  induction left generalizing value l text with
  | zero => exact absurd rfl hleft
  | succ left ih =>
      cases text with
      | nil => rw [readBody] at h; cases h
      | cons c text =>
          rw [readBody] at h
          split at h
          · next d hd =>
              let digit : HexDigit := ⟨c, Option.isSome_of_eq_some hd⟩
              have hvalue : digit.value = d :=
                Option.some.inj ((hexValue?_digit digit).symm.trans hd)
              cases left with
              | zero =>
                  simp only [Nat.zero_add, Nat.le_refl, if_true] at h
                  cases text with
                  | nil => rw [readBody] at h; cases h
                  | cons brace after =>
                      simp only [readBody] at h
                      split at h
                      · cases h
                      · next hbrace =>
                          split at h
                          · cases h
                          · next hscalar =>
                              refine ⟨[digit], after, _, _, rfl, ?_, ?_, h⟩
                              · rw [Decidable.not_not.mp hbrace]; rfl
                              · simpa [HexDigit.numberFrom, hvalue] using hscalar
              | succ left =>
                  simp only [Nat.reduceLeDiff, if_false, Nat.add_sub_cancel] at h
                  obtain ⟨digits, after, read', l', hlength, htext, hscalar, hread⟩ :=
                    ih (Nat.succ_ne_zero left) h
                  refine ⟨digit :: digits, after, read', l', ?_, ?_, ?_, hread⟩
                  · rw [List.length_cons, hlength]
                  · rw [htext]; rfl
                  · rw [← hscalar, ← hvalue]; rfl
          · cases h

/-- Four digits in braces make a piece unless they name a surrogate; two always do. -/
theorem exists_piece_of_digits {letter : Char} {digits : List HexDigit}
    (hletter : escapeDigits? letter = some digits.length)
    (hscalar : Text.isSurrogate (HexDigit.number digits) = false) :
    ∃ p : Piece, p.spell = '\\' :: letter :: '{' :: (digits.map Subtype.val ++ ['}']) := by
  obtain ⟨rfl, hlength⟩ | ⟨rfl, hlength⟩ := escapeDigits?_eq_some hletter
  · match digits, hlength, hscalar with
    | [a, b, c, d], _, hscalar => exact ⟨.unicode a b c d hscalar, rfl⟩
  · match digits, hlength with
    | [a, b], _ => exact ⟨.byte a b, rfl⟩

/-- After a backslash the reader meets the rest of a piece. -/
theorem exists_piece_of_readBody_escape {read : List Char} {decoded : Bool} {l : Location}
    {text : List Char} {body : Body} (h : readBody .escape read decoded l text = .ok body) :
    ∃ (p : Piece) (after read' : List Char) (l' : Location),
      '\\' :: text = p.spell ++ after ∧ readBody .plain read' decoded l' after = .ok body := by
  cases text with
  | nil => rw [readBody] at h; cases h
  | cons c text =>
      rw [readBody] at h
      split at h
      · next value _ hnamed =>
          obtain ⟨letter, rfl, rfl⟩ := exists_letter_of_namedEscape? hnamed
          exact ⟨.named letter, text, _, _, rfl, h⟩
      · next digits _ hdigits =>
          cases text with
          | nil => rw [readBody] at h; cases h
          | cons brace text =>
              rw [readBody] at h
              split at h
              · next hbrace =>
                  subst hbrace
                  have hne : digits ≠ 0 := by
                    rcases escapeDigits?_eq_some hdigits with ⟨-, rfl⟩ | ⟨-, rfl⟩ <;> decide
                  obtain ⟨ds, after, read', l', hlength, htext, hscalar, hread⟩ :=
                    exists_digits_of_readBody hne h
                  rw [HexDigit.numberFrom_zero] at hscalar
                  obtain ⟨p, hp⟩ := exists_piece_of_digits (hlength ▸ hdigits) hscalar
                  refine ⟨p, after, read', l', ?_, hread⟩
                  rw [hp, htext]
                  simp
              · cases h
      · split at h <;> cases h

theorem exists_pieces_of_readBody {read : List Char} {decoded : Bool} {l : Location}
    {text : List Char} {body : Body} (h : readBody .plain read decoded l text = .ok body) :
    ∃ pieces after, text = spellAll pieces ++ '"' :: after := by
  -- An escape takes several characters, so the induction is on the length of the text.
  induction hn : text.length using Nat.strongRecOn generalizing read decoded l text with
  | ind n ih =>
      subst hn
      cases text with
      | nil => rw [readBody] at h; cases h
      | cons c text =>
          rw [readBody] at h
          split at h
          · next hquote => exact ⟨[], text, by rw [hquote]; rfl⟩
          · next hquote =>
              split at h
              · next hback =>
                  subst hback
                  obtain ⟨p, after, read', l', htext, hread⟩ := exists_piece_of_readBody_escape h
                  have hshorter : after.length < ('\\' :: text).length := by
                    rw [htext, List.length_append]
                    have := p.length_spell_pos
                    omega
                  obtain ⟨pieces, rest, hrest⟩ := ih _ hshorter hread rfl
                  refine ⟨p :: pieces, rest, ?_⟩
                  rw [htext, hrest, spellAll_cons, List.append_assoc]
              · next hback =>
                  split at h
                  · cases h
                  · next hbreak =>
                      simp only [Bool.or_eq_true, decide_eq_true_eq, not_or] at hbreak
                      obtain ⟨pieces, rest, hrest⟩ := ih text.length (by simp) h rfl
                      refine ⟨.raw c ⟨hquote, hback, hbreak⟩ :: pieces, rest, ?_⟩
                      rw [hrest]
                      rfl

theorem textAt_walk {c : Cursor} (h : 0 ≤ c.location.offset) {text after : List Char}
    (hrest : c.rest = text ++ after) : textAt c (c.location.walk text) = after := by
  rw [textAt, if_pos (Cursor.nonneg_walk h text)]
  exact Cursor.rest_moveTo_walk h hrest

/-- What the rule makes of a well-formed literal. -/
theorem stringLiteral_literal {c : Cursor} (h : 0 ≤ c.location.offset) {pieces : List Piece}
    {after : List Char} (htext : c.skipBlank.rest = literal pieces ++ after) :
    Rule.stringLiteral c =
      (.matched (token c.skipBlank.location pieces),
        c.moveTo (c.skipBlank.location.walk (literal pieces))) := by
  have hblank := Cursor.nonneg_skipBlank h
  have hbody : c.skipBlank.rest = "\"".toList ++ (spellAll pieces ++ '"' :: after) := by
    rw [htext, literal]
    simp
  have hmark : Lexeme.literal "\"" c.skipBlank =
      some ⟨c.skipBlank.location, c.skipBlank.location.walk "\"".toList⟩ :=
    (Cursor.literal_iff hblank).mpr ⟨by decide, ⟨_, hbody⟩, rfl⟩
  have hstop : (((c.skipBlank.location.walk "\"".toList).walk (spellAll pieces)).advance '"') =
      c.skipBlank.location.walk (literal pieces) := by
    simp [literal, Location.walk_append]
  simp only [Rule.stringLiteral, hmark]
  rw [textAt_walk hblank hbody, readBody_pieces]
  simp only [List.reverse_nil, List.nil_append, Bool.false_or, hstop, token]
  rfl

/-- A match of the rule comes from a well-formed literal. -/
theorem exists_pieces_of_stringLiteral {c c' : Cursor} (h : 0 ≤ c.location.offset) {t : Token}
    (hmatch : Rule.stringLiteral c = (.matched t, c')) :
    ∃ pieces after, c.skipBlank.rest = literal pieces ++ after := by
  have hblank := Cursor.nonneg_skipBlank h
  simp only [Rule.stringLiteral] at hmatch
  split at hmatch
  · next mark hmark =>
      obtain ⟨-, ⟨body, hbody⟩, rfl⟩ := (Cursor.literal_iff hblank).mp hmark
      rw [textAt_walk hblank hbody] at hmatch
      split at hmatch
      · next hread =>
          obtain ⟨pieces, after, htext⟩ := exists_pieces_of_readBody hread
          refine ⟨pieces, after, ?_⟩
          rw [hbody, htext, literal]
          simp
      · cases hmatch
  · cases hmatch

theorem exists_source_of_literal (pieces : List Piece) :
    ∃ source : String, (Cursor.ofString source).skipBlank.rest = literal pieces ++ [] := by
  refine ⟨String.ofList (literal pieces), ?_⟩
  rw [Cursor.rest_skipBlank (Cursor.nonneg_ofString _), Cursor.rest_ofString, String.toList_ofList,
    List.append_nil, literal, List.dropWhile_cons_of_neg (by decide)]

/-- The rule matches exactly the well-formed literals, of which at most one stands at a place. Its
token has the text that the pieces stand for and covers both quotation marks, and the cursor goes on
after them; the text is the one in the source unless some piece is an escape. Every text has a
literal. The offset of a point in a text is not negative, so the cursor is any that a rule reaches. -/
theorem stringLiteral_decodes (c : Cursor) (h : 0 ≤ c.location.offset) :
    ((∃ t c', Rule.stringLiteral c = (.matched t, c')) ↔
      ∃ pieces after, c.skipBlank.rest = literal pieces ++ after) ∧
    (∀ pieces after, c.skipBlank.rest = literal pieces ++ after →
      (∀ others rest, c.skipBlank.rest = literal others ++ rest → others = pieces) ∧
      ∃ t c', Rule.stringLiteral c = (.matched t, c') ∧
        t.text = String.ofList (values pieces) ∧
        t.span = ⟨c.skipBlank.location, c.skipBlank.location.walk (literal pieces)⟩ ∧
        c'.source = c.source ∧ c'.location = t.span.stop ∧ c'.rest = after ∧
        t.decoded = pieces.any isEscape ∧
        (t.decoded = false → t =
          .borrowed c.source t.span (t.span.start.offset + 1) (t.span.stop.offset - 1))) ∧
    ∀ text : String, ∃ (source : String) (t : Token) (c' : Cursor),
      Rule.stringLiteral (.ofString source) = (.matched t, c') ∧ t.text = text ∧ c'.rest = [] := by
  have hblank := Cursor.nonneg_skipBlank h
  refine ⟨⟨?_, ?_⟩, ?_, ?_⟩
  · rintro ⟨t, c', hmatch⟩
    exact exists_pieces_of_stringLiteral h hmatch
  · rintro ⟨pieces, after, htext⟩
    exact ⟨_, _, stringLiteral_literal h htext⟩
  · intro pieces after htext
    refine ⟨?_, _, _, stringLiteral_literal h htext, rfl, rfl, rfl, rfl, ?_, rfl, ?_⟩
    · intro others rest hother
      exact (literal_append_inj (hother.symm.trans htext)).1
    · exact Cursor.rest_moveTo_walk hblank htext
    · intro hdecoded
      exact token_eq_borrowed hblank htext hdecoded
  · intro text
    obtain ⟨source, hsource⟩ := exists_source_of_literal (text.toList.map ofChar)
    refine ⟨source, _, _, stringLiteral_literal (Cursor.nonneg_ofString source) hsource, ?_, ?_⟩
    · rw [token, values_map_ofChar, String.ofList_toList]
    · exact Cursor.rest_moveTo_walk
        (Cursor.nonneg_skipBlank (Cursor.nonneg_ofString source)) hsource

/-- A literal with an escape, after a blank. -/
theorem stringLiteral_decodes_escape :
    0 ≤ (Cursor.ofString " \"\\x\x7b41\x7db\"").location.offset ∧
      ∃ t c', Rule.stringLiteral (.ofString " \"\\x\x7b41\x7db\"") = (.matched t, c') :=
  ⟨by decide, (stringLiteral_decodes (.ofString " \"\\x\x7b41\x7db\"") (by decide)).1.mpr
    ⟨[.byte ⟨'4', by decide⟩ ⟨'1', by decide⟩, .raw 'b' (by decide)], [], by decide⟩⟩

end KestrelCompiler.StringLiteral
