import KestrelCompiler.Proofs.StringLiteral.Fault

/-!
Malformed string literals are rejected at the first wrong character. As long as surrogates may be
named, the text up to a fault can be prolonged to a literal, and with the next character it cannot.
The reader is followed one character at a time: its state tells how much of a piece it has read.
-/

namespace KestrelCompiler.StringLiteral

open Piece

/-- What a piece looks like, whatever its number is: also an escape that names a surrogate. -/
inductive Shape where
  | piece (p : Piece)
  | surrogate (a b c d : HexDigit)
    (names : Text.isSurrogate (HexDigit.number [a, b, c, d]) = true)

namespace Shape

def spell : Shape → List Char
  | piece p => p.spell
  | surrogate a b c d _ => ['\\', 'u', '{', a.val, b.val, c.val, d.val, '}']

/-- The writing of a whole literal. -/
def literal (shapes : List Shape) : List Char :=
  '"' :: (shapes.flatMap spell ++ ['"'])

/-- Whatever digits stand in an escape, they are as many as its letter asks for. -/
theorem exists_of_digits {letter : Char} {digits : List HexDigit}
    (hletter : escapeDigits? letter = some digits.length) :
    ∃ s : Shape, s.spell = '\\' :: letter :: '{' :: (digits.map Subtype.val ++ ['}']) := by
  obtain ⟨rfl, hlength⟩ | ⟨rfl, hlength⟩ := escapeDigits?_eq_some hletter
  · match digits, hlength with
    | [a, b, c, d], _ =>
      cases hnumber : Text.isSurrogate (HexDigit.number [a, b, c, d]) with
      | true => exact ⟨surrogate a b c d hnumber, rfl⟩
      | false => exact ⟨piece (.unicode a b c d hnumber), rfl⟩
  · match digits, hlength with
    | [a, b], _ => exact ⟨piece (.byte a b), rfl⟩

/-- A shape is one plain character, an escape of one letter or one with digits. -/
theorem spell_cases (s : Shape) :
    (∃ c, (c ≠ '"' ∧ c ≠ '\\' ∧ c ≠ '\n' ∧ c ≠ '\r') ∧ s.spell = [c]) ∨
    (∃ letter : Letter, s.spell = ['\\', letter.char]) ∨
    ∃ (letter : Char) (digits : List HexDigit), escapeDigits? letter = some digits.length ∧
      s.spell = '\\' :: letter :: '{' :: (digits.map Subtype.val ++ ['}']) := by
  cases s with
  | piece p =>
      cases p with
      | raw c plain => exact .inl ⟨c, plain, rfl⟩
      | named letter => exact .inr (.inl ⟨letter, rfl⟩)
      | unicode a b c d _ => exact .inr (.inr ⟨'u', [a, b, c, d], rfl, rfl⟩)
      | byte a b => exact .inr (.inr ⟨'x', [a, b], rfl, rfl⟩)
  | surrogate a b c d _ => exact .inr (.inr ⟨'u', [a, b, c, d], rfl, rfl⟩)

/-- Behind a piece both texts go on with the same. -/
theorem spell_append_cancel {p : Piece} {s : Shape} {after rest : List Char}
    (h : p.spell ++ after = s.spell ++ rest) : after = rest := by
  cases s with
  | piece q => exact (spell_append_inj h).2
  | surrogate a b c d _ =>
      cases p with
      | raw c plain => simp [spell, Piece.spell, plain.2.1] at h
      | named letter => cases letter <;> simp [spell, Piece.spell, Letter.char] at h
      | unicode a' b' c' d' _ =>
          simp only [spell, Piece.spell, List.cons_append, List.nil_append, List.cons.injEq,
            true_and] at h
          exact h.2.2.2.2
      | byte _ _ => simp [spell, Piece.spell] at h

end Shape

/-- Behind an opening quotation mark the text can be prolonged to a literal. -/
def Viable (text : List Char) : Prop :=
  ∃ shapes, '"' :: text <+: Shape.literal shapes

theorem viable_iff {text : List Char} : Viable text ↔
    ∃ (shapes : List Shape) (more : List Char),
      text ++ more = shapes.flatMap Shape.spell ++ ['"'] := by
  simp only [Viable, Shape.literal, List.cons_prefix_cons, true_and]
  exact Iff.rfl

theorem viable_of_shape {s : Shape} {text rest : List Char} (h : s.spell = text ++ rest) :
    Viable text :=
  viable_iff.mpr ⟨[s], rest ++ ['"'], by simp [h]⟩

theorem Viable.cons {text : List Char} (h : Viable text) (s : Shape) :
    Viable (s.spell ++ text) := by
  obtain ⟨shapes, more, hmore⟩ := viable_iff.mp h
  exact viable_iff.mpr ⟨s :: shapes, more, by simp [hmore]⟩

theorem Viable.of_cons {text : List Char} {p : Piece} (h : Viable (p.spell ++ text)) :
    Viable text := by
  obtain ⟨shapes, more, hmore⟩ := viable_iff.mp h
  rw [List.append_assoc] at hmore
  cases shapes with
  | nil => exact absurd hmore (spell_append_ne_quote p _ _)
  | cons s shapes =>
      rw [List.flatMap_cons, List.append_assoc] at hmore
      exact viable_iff.mpr ⟨shapes, more, Shape.spell_append_cancel hmore⟩

/-- What a text that can be prolonged begins with. -/
theorem Viable.shape {c : Char} {text : List Char} (h : Viable (c :: text)) :
    c = '"' ∨ ∃ (s : Shape) (more rest : List Char), c :: text ++ more = s.spell ++ rest := by
  obtain ⟨shapes, more, hmore⟩ := viable_iff.mp h
  cases shapes with
  | nil => exact .inl (List.cons.inj hmore).1
  | cons s shapes => exact .inr ⟨s, more, _, hmore.trans (List.append_assoc ..)⟩

theorem not_viable_lineBreak {c : Char} (h : c = '\n' ∨ c = '\r') : ¬ Viable [c] := by
  intro hviable
  obtain rfl | ⟨s, more, rest, hs⟩ := hviable.shape
  · revert h
    decide
  · obtain ⟨d, plain, hspell⟩ | ⟨letter, hspell⟩ | ⟨letter, digits, -, hspell⟩ := s.spell_cases <;>
      rw [hspell] at hs <;> obtain rfl := (List.cons.inj hs).1
    · exact h.elim plain.2.2.1 plain.2.2.2
    · revert h
      decide
    · revert h
      decide

/-- A text that begins an escape. -/
theorem Viable.escape {text : List Char} (h : Viable ('\\' :: text)) :
    (∃ (letter : Letter) (more rest : List Char), text ++ more = letter.char :: rest) ∨
    ∃ (letter : Char) (digits : List HexDigit) (more rest : List Char),
      escapeDigits? letter = some digits.length ∧
      text ++ more = letter :: '{' :: (digits.map Subtype.val ++ '}' :: rest) := by
  obtain hquote | ⟨s, more, rest, hs⟩ := h.shape
  · cases hquote
  · obtain ⟨c, plain, hspell⟩ | ⟨letter, hspell⟩ | ⟨letter, digits, hletter, hspell⟩ :=
      s.spell_cases <;> rw [hspell] at hs
    · exact absurd (List.cons.inj hs).1.symm plain.2.1
    · exact .inl ⟨letter, more, rest, (List.cons.inj hs).2⟩
    · refine .inr ⟨letter, digits, more, rest, hletter, ?_⟩
      simpa using (List.cons.inj hs).2

theorem escapeDigits?_char (letter : Letter) : escapeDigits? letter.char = none := by
  cases letter <;> rfl

theorem not_viable_escape {c : Char} (hnamed : namedEscape? c = none)
    (hdigits : escapeDigits? c = none) : ¬ Viable ['\\', c] := by
  intro h
  obtain ⟨letter, more, rest, hc⟩ | ⟨letter, digits, more, rest, hletter, hc⟩ := h.escape <;>
    obtain rfl := (List.cons.inj hc).1
  · rw [namedEscape?_char] at hnamed
    cases hnamed
  · rw [hdigits] at hletter
    cases hletter

/-- A text that begins an escape with digits. -/
theorem Viable.digits {letter : Char} {n : Nat} {text : List Char}
    (h : Viable ('\\' :: letter :: text)) (hletter : escapeDigits? letter = some n) :
    ∃ (digits : List HexDigit) (more rest : List Char), digits.length = n ∧
      text ++ more = '{' :: (digits.map Subtype.val ++ '}' :: rest) := by
  obtain ⟨other, more, rest, hc⟩ | ⟨other, digits, more, rest, hother, hc⟩ := h.escape <;>
    obtain ⟨rfl, htext⟩ := List.cons.inj hc
  · rw [escapeDigits?_char] at hletter
    cases hletter
  · exact ⟨digits, more, rest, Option.some.inj (hother.symm.trans hletter), htext⟩

section Escapes

variable {letter c : Char} {n : Nat} {digits : List HexDigit}

theorem not_viable_opening (hletter : escapeDigits? letter = some n) (hc : c ≠ '{') :
    ¬ Viable ['\\', letter, c] := by
  intro h
  obtain ⟨_, more, rest, -, htext⟩ := h.digits hletter
  exact hc (List.cons.inj htext).1

/-- The character behind some of the digits of an escape, or behind all of them. -/
theorem digit_or_brace {all : List HexDigit} {more rest : List Char}
    (h : digits.map Subtype.val ++ c :: more = all.map Subtype.val ++ '}' :: rest) :
    (digits.length < all.length → (Text.hexValue? c).isSome) ∧
      (digits.length = all.length → c = '}') := by
  induction digits generalizing all with
  | nil =>
      cases all with
      | nil => exact ⟨nofun, fun _ => (List.cons.inj h).1⟩
      | cons d all =>
          obtain rfl := (List.cons.inj h).1
          exact ⟨fun _ => d.property, nofun⟩
  | cons d digits ih =>
      cases all with
      | nil => exact ⟨nofun, nofun⟩
      | cons e all =>
          obtain ⟨hdigit, hbrace⟩ := ih (List.cons.inj h).2
          exact ⟨fun hlt => hdigit (Nat.lt_of_succ_lt_succ hlt),
            fun heq => hbrace (Nat.succ.inj heq)⟩

theorem Viable.digit_or_brace
    (h : Viable ('\\' :: letter :: '{' :: (digits.map Subtype.val ++ [c])))
    (hletter : escapeDigits? letter = some n) :
    (digits.length < n → (Text.hexValue? c).isSome) ∧ (digits.length = n → c = '}') := by
  obtain ⟨all, more, rest, rfl, htext⟩ := h.digits hletter
  exact StringLiteral.digit_or_brace (by simpa using htext)

/-- Some digits of an escape, with zeros for those that are left. -/
theorem viable_digits {left : Nat} (hletter : escapeDigits? letter = some (digits.length + left)) :
    Viable ('\\' :: letter :: '{' :: digits.map Subtype.val) := by
  have hall : escapeDigits? letter =
      some (digits ++ List.replicate left HexDigit.zero).length := by
    rw [List.length_append, List.length_replicate, hletter]
  obtain ⟨s, hs⟩ := Shape.exists_of_digits hall
  rw [List.map_append, List.append_assoc] at hs
  exact viable_of_shape hs

theorem viable_letter (hletter : escapeDigits? letter = some n) : Viable ['\\', letter] := by
  have hall : escapeDigits? letter = some (List.replicate n HexDigit.zero).length := by
    rw [List.length_replicate, hletter]
  obtain ⟨s, hs⟩ := Shape.exists_of_digits hall
  exact @viable_of_shape _ ['\\', letter] _ hs

end Escapes

theorem walk_concat (l : Location) (text : List Char) (c : Char) :
    l.walk (text ++ [c]) = (l.walk text).advance c :=
  Location.walk_append l text [c]

/-- What the reader has read of a piece that begins at `l`, by its state. -/
inductive Stands (l : Location) : State → List Char → Prop
  | plain : Stands l .plain []
  | escape : Stands l .escape ['\\']
  | opening {letter : Char} {n : Nat} :
    escapeDigits? letter = some n → Stands l (.opening n) ['\\', letter]
  | digits {letter : Char} {digits : List HexDigit} {left : Nat} :
    escapeDigits? letter = some (digits.length + left) → left ≠ 0 →
    Stands l (.digits left (HexDigit.number digits) (l.walk ['\\', letter, '{']))
      ('\\' :: letter :: '{' :: digits.map Subtype.val)
  | closing {letter : Char} {digits : List HexDigit} :
    escapeDigits? letter = some digits.length →
    Stands l (.closing (HexDigit.number digits) (l.walk ['\\', letter, '{']))
      ('\\' :: letter :: '{' :: digits.map Subtype.val)

theorem Stands.viable {l : Location} {state : State} {begun : List Char}
    (h : Stands l state begun) : Viable begun := by
  cases h with
  | plain => exact ⟨[], by decide⟩
  | escape => exact @viable_of_shape (.piece (.named .n)) _ ['n'] rfl
  | opening hletter => exact viable_letter hletter
  | digits hletter _ => exact viable_digits hletter
  | closing hletter => exact @viable_digits _ _ 0 hletter

theorem HexDigit.number_snoc (digits : List HexDigit) (d : HexDigit) :
    number (digits ++ [d]) = 16 * number digits + d.value := by
  simp [number, Text.ofDigits]

/-- One more digit leads to the next one or to the closing brace. -/
theorem Stands.digit {l : Location} {letter : Char} {digits : List HexDigit} {left : Nat}
    (hletter : escapeDigits? letter = some (digits.length + left)) (hleft : left ≠ 0)
    (d : HexDigit) :
    Stands l
      (if left ≤ 1 then .closing (16 * HexDigit.number digits + d.value)
          (l.walk ['\\', letter, '{'])
        else .digits (left - 1) (16 * HexDigit.number digits + d.value)
          (l.walk ['\\', letter, '{']))
      ('\\' :: letter :: '{' :: (digits.map Subtype.val ++ [d.val])) := by
  have htext : digits.map Subtype.val ++ [d.val] = (digits ++ [d]).map Subtype.val := by
    rw [List.map_append]
    rfl
  rw [htext, ← HexDigit.number_snoc]
  split
  · next hlast =>
      refine .closing ?_
      rw [hletter, List.length_append, List.length_singleton]
      exact congrArg some (by omega)
  · next hmore =>
      refine .digits ?_ (by omega)
      rw [hletter, List.length_append, List.length_singleton]
      exact congrArg some (by omega)

/-- The text up to an escape that names a surrogate is well-formed, and `front` leads to the first
digit of this escape. -/
def NamesSurrogate (text front : List Char) : Prop :=
  ∃ (pieces : List Piece) (a b c d : HexDigit)
    (names : Text.isSurrogate (HexDigit.number [a, b, c, d]) = true) (after : List Char),
    text = spellAll pieces ++ ((Shape.surrogate a b c d names).spell ++ after) ∧
      front = spellAll pieces ++ ['\\', 'u', '{']

theorem namesSurrogate_of_digits {letter : Char} {digits : List HexDigit}
    (hletter : escapeDigits? letter = some digits.length)
    (h : Text.isSurrogate (HexDigit.number digits) = true) (after : List Char) :
    NamesSurrogate ('\\' :: letter :: '{' :: digits.map Subtype.val ++ '}' :: after)
      ['\\', letter, '{'] := by
  obtain ⟨rfl, hlength⟩ | ⟨rfl, hlength⟩ := escapeDigits?_eq_some hletter
  · match digits, hlength, h with
    | [a, b, c, d], _, h => exact ⟨[], a, b, c, d, h, after, rfl, rfl⟩
  · match digits, hlength, h with
    | [a, b], _, h =>
      rw [isSurrogate_byte] at h
      cases h

/-- The fault of a text that begins at `l` is reported behind the longest part that can be prolonged
to a literal, or where the digits of a surrogate begin. -/
def Refused (l : Location) (text : List Char) (problem : Problem) : Prop :=
  (∃ front after, text = front ++ after ∧ problem.location = l.walk front ∧ Viable front ∧
    ∀ c rest, after = c :: rest → ¬ Viable (front ++ [c])) ∨
  ∃ front, NamesSurrogate text front ∧ problem.location = l.walk front

theorem Refused.cons {l : Location} {text : List Char} {problem : Problem} (p : Piece)
    (h : Refused (l.walk p.spell) text problem) : Refused l (p.spell ++ text) problem := by
  rcases h with ⟨front, after, rfl, hlocation, hfront, hnext⟩ |
    ⟨front, ⟨pieces, a, b, c, d, names, after, rfl, rfl⟩, hlocation⟩
  · refine .inl ⟨p.spell ++ front, after, (List.append_assoc ..).symm, ?_,
      hfront.cons (.piece p), fun c rest hafter hviable => hnext c rest hafter ?_⟩
    · rw [hlocation, Location.walk_append]
    · rw [List.append_assoc] at hviable
      exact hviable.of_cons
  · refine .inr ⟨_, ⟨p :: pieces, a, b, c, d, names, after, ?_, rfl⟩, ?_⟩
    · rw [spellAll_cons, List.append_assoc]
    · simp only [hlocation, spellAll_cons, List.append_assoc, Location.walk_append]

/-- What the reader does with the next character of a text with a fault: it finds the fault here, or
goes on, inside the piece or behind it. -/
inductive Turn (l : Location) (begun : List Char) (c : Char) (text : List Char)
    (problem : Problem) : Prop
  | wrong : problem.location = l.walk begun → ¬ Viable (begun ++ [c]) → Turn l begun c text problem
  | inside {state : State} {read : List Char} {decoded : Bool} : Stands l state (begun ++ [c]) →
    readBody state read decoded (l.walk (begun ++ [c])) text = .error problem →
    Turn l begun c text problem
  | behind {p : Piece} {read : List Char} {decoded : Bool} : p.spell = begun ++ [c] →
    readBody .plain read decoded (l.walk (begun ++ [c])) text = .error problem →
    Turn l begun c text problem
  | surrogate {front : List Char} : NamesSurrogate (begun ++ c :: text) front →
    problem.location = l.walk front → Turn l begun c text problem

section Reading

variable {read : List Char} {decoded : Bool} {l : Location} {c letter : Char} {text : List Char}
  {problem : Problem}

theorem turn_plain (h : readBody .plain read decoded l (c :: text) = .error problem) :
    Turn l [] c text problem := by
  rw [readBody] at h
  split at h
  · cases h
  · next hquote =>
      split at h
      · next hback =>
          subst hback
          exact .inside .escape h
      · next hback =>
          split at h
          · next hbreak =>
              cases h
              exact .wrong rfl (not_viable_lineBreak (by simpa using hbreak))
          · next hbreak =>
              simp only [Bool.or_eq_true, decide_eq_true_eq, not_or] at hbreak
              exact .behind (p := .raw c ⟨hquote, hback, hbreak⟩) rfl h

theorem turn_escape
    (h : readBody .escape read decoded (l.walk ['\\']) (c :: text) = .error problem) :
    Turn l ['\\'] c text problem := by
  rw [readBody] at h
  split at h
  · next value _ hnamed =>
      obtain ⟨letter, rfl, rfl⟩ := exists_letter_of_namedEscape? hnamed
      exact .behind (p := .named letter) rfl h
  · next digits _ hdigits => exact .inside (.opening hdigits) h
  · next hnamed hdigits =>
      have hlocation : problem.location = l.walk ['\\'] := by
        split at h <;> cases h <;> rfl
      exact .wrong hlocation (not_viable_escape hnamed hdigits)

theorem turn_opening {n : Nat} (hletter : escapeDigits? letter = some n)
    (h : readBody (.opening n) read decoded (l.walk ['\\', letter]) (c :: text) = .error problem) :
    Turn l ['\\', letter] c text problem := by
  rw [readBody] at h
  split at h
  · next hbrace =>
      subst hbrace
      have hne : n ≠ 0 := by
        rcases escapeDigits?_eq_some hletter with ⟨-, rfl⟩ | ⟨-, rfl⟩ <;> decide
      exact .inside (@Stands.digits _ _ [] _ (by simpa using hletter) hne) h
  · next hbrace =>
      cases h
      exact .wrong rfl (not_viable_opening hletter hbrace)

theorem turn_digits {digits : List HexDigit} {left : Nat}
    (hletter : escapeDigits? letter = some (digits.length + left)) (hleft : left ≠ 0)
    (h : readBody (.digits left (HexDigit.number digits) (l.walk ['\\', letter, '{'])) read decoded
      (l.walk ('\\' :: letter :: '{' :: digits.map Subtype.val)) (c :: text) = .error problem) :
    Turn l ('\\' :: letter :: '{' :: digits.map Subtype.val) c text problem := by
  rw [readBody] at h
  split at h
  · next d hd =>
      let digit : HexDigit := ⟨c, Option.isSome_of_eq_some hd⟩
      have hvalue : digit.value = d := Option.some.inj ((hexValue?_digit digit).symm.trans hd)
      rw [← hvalue, ← walk_concat] at h
      exact .inside (Stands.digit hletter hleft digit) h
  · next hnone =>
      cases h
      refine .wrong rfl fun hviable => ?_
      have hdigit := (hviable.digit_or_brace hletter).1 (by omega)
      rw [hnone] at hdigit
      cases hdigit

theorem turn_closing {digits : List HexDigit} (hletter : escapeDigits? letter = some digits.length)
    (h : readBody (.closing (HexDigit.number digits) (l.walk ['\\', letter, '{'])) read decoded
      (l.walk ('\\' :: letter :: '{' :: digits.map Subtype.val)) (c :: text) = .error problem) :
    Turn l ('\\' :: letter :: '{' :: digits.map Subtype.val) c text problem := by
  rw [readBody] at h
  split at h
  · next hbrace =>
      cases h
      exact .wrong rfl fun hviable => hbrace ((hviable.digit_or_brace hletter).2 rfl)
  · next hbrace =>
      obtain rfl := Decidable.not_not.mp hbrace
      split at h
      · next hsurrogate =>
          cases h
          exact .surrogate (namesSurrogate_of_digits hletter hsurrogate text) rfl
      · next hscalar =>
          obtain ⟨p, hp⟩ := exists_piece_of_digits hletter (Bool.eq_false_iff.mpr hscalar)
          rw [← walk_concat] at h
          exact .behind hp h

theorem Stands.turn {state : State} {begun : List Char} (hstands : Stands l state begun)
    (h : readBody state read decoded (l.walk begun) (c :: text) = .error problem) :
    Turn l begun c text problem := by
  cases hstands with
  | plain => exact turn_plain h
  | escape => exact turn_escape h
  | opening hletter => exact turn_opening hletter h
  | digits hletter hleft => exact turn_digits hletter hleft h
  | closing hletter => exact turn_closing hletter h

/-- From every state the reader goes on to the fault, and leaves the pieces before it behind. -/
theorem Stands.refused {state : State} {begun : List Char} (hstands : Stands l state begun)
    (h : readBody state read decoded (l.walk begun) text = .error problem) :
    Refused l (begun ++ text) problem := by
  induction text generalizing state begun read decoded l with
  | nil =>
      have hlocation : problem.location = l.walk begun := by
        unfold readBody at h
        cases h
        rfl
      exact .inl ⟨begun, [], rfl, hlocation, hstands.viable,
        fun c rest hend => absurd hend.symm (List.cons_ne_nil c rest)⟩
  | cons c text ih =>
      cases hstands.turn h with
      | wrong hlocation hnext =>
          refine .inl ⟨begun, c :: text, rfl, hlocation, hstands.viable, fun d rest hd => ?_⟩
          exact (List.cons.inj hd).1 ▸ hnext
      | inside hstands' h' =>
          rw [List.append_cons]
          exact ih hstands' h'
      | behind hp h' =>
          rw [List.append_cons, ← hp]
          rw [← hp] at h'
          exact (ih .plain h').cons _
      | surrogate hnames hlocation => exact .inr ⟨_, hnames, hlocation⟩

theorem readBody_error_code {state : State}
    (h : readBody state read decoded l text = .error problem) : problem.code = "E100" := by
  fun_induction readBody state read decoded l text <;> grind [StringFault.problem]

/-- The digits of a surrogate are read up to the closing brace. -/
theorem readBody_surrogate {a b c d : HexDigit}
    (names : Text.isSurrogate (HexDigit.number [a, b, c, d]) = true) :
    readBody .plain read decoded l ((Shape.surrogate a b c d names).spell ++ text) =
      .error ((StringFault.surrogate (HexDigit.number [a, b, c, d])).problem
        (l.walk ['\\', 'u', '{'])) := by
  have hnumber : 16 * (16 * (16 * a.value + b.value) + c.value) + d.value =
      HexDigit.number [a, b, c, d] := by
    simp [HexDigit.number, Text.ofDigits]
  simp only [Shape.spell, List.cons_append, List.nil_append]
  rw [readBody_backslash, readBody]
  simp [namedEscape?, escapeDigits?, readBody, hexValue?_digit, hnumber, names]

/-- The first escape that names a surrogate is what a text is refused for. -/
theorem NamesSurrogate.refused {front : List Char} (h : NamesSurrogate text front) :
    ∃ fault : StringFault,
      readBody .plain read decoded l text = .error (fault.problem (l.walk front)) := by
  obtain ⟨pieces, a, b, c, d, names, after, rfl, rfl⟩ := h
  induction pieces generalizing read decoded l with
  | nil => exact ⟨_, readBody_surrogate names⟩
  | cons p pieces ih =>
      simp only [spellAll_cons, List.append_assoc, readBody_spell, Location.walk_append]
      obtain ⟨fault, hfault⟩ := @ih (p.value :: read) (decoded || p.isEscape) (l.walk p.spell)
      exact ⟨fault, by rw [hfault, Location.walk_append]⟩

end Reading

/-- A text that begins like a string literal and is none is rejected. The cursor stays at the
opening quotation mark, and the fault is found at the first character that no literal has there, or
at the end of the source. Only an escape that names a surrogate is read to its end first; its fault
is reported where its digits begin. -/
theorem stringLiteral_rejects {c : Cursor} (h : 0 ≤ c.location.offset) {text : List Char}
    (hquote : c.skipBlank.rest = '"' :: text)
    (hmalformed : ∀ pieces after, c.skipBlank.rest ≠ literal pieces ++ after) :
    ∃ problem, Rule.stringLiteral c = (.failed problem, c.skipBlank) ∧ problem.code = "E100" ∧
      (∀ front, NamesSurrogate text front →
        problem.location = c.skipBlank.location.walk ('"' :: front)) ∧
      ((∀ front, ¬ NamesSurrogate text front) → ∃ front after, text = front ++ after ∧
        problem.location = c.skipBlank.location.walk ('"' :: front) ∧ Viable front ∧
        ∀ next rest, after = next :: rest → ¬ Viable (front ++ [next])) := by
  have hblank := Cursor.nonneg_skipBlank h
  have hbody : c.skipBlank.rest = "\"".toList ++ text := hquote
  have hmark : Lexeme.literal "\"" c.skipBlank =
      some ⟨c.skipBlank.location, c.skipBlank.location.walk "\"".toList⟩ :=
    (Cursor.literal_iff hblank).mpr ⟨by decide, ⟨_, hbody⟩, rfl⟩
  have hrule : ∀ problem,
      readBody .plain [] false (c.skipBlank.location.walk ['"']) text = .error problem →
        Rule.stringLiteral c = (.failed problem, c.skipBlank) := by
    intro problem hread
    simp only [Rule.stringLiteral, hmark]
    rw [textAt_walk hblank hbody]
    change readBody .plain [] false (c.skipBlank.location.walk "\"".toList) text = _ at hread
    rw [hread]
  cases hread : readBody .plain [] false (c.skipBlank.location.walk ['"']) text with
  | ok body =>
      obtain ⟨pieces, after, htext⟩ := exists_pieces_of_readBody hread
      refine absurd ?_ (hmalformed pieces after)
      rw [hquote, htext, literal]
      simp
  | error problem =>
      refine ⟨problem, hrule problem hread, readBody_error_code hread, fun front hnames => ?_,
        fun hnone => ?_⟩
      · obtain ⟨fault, hfault⟩ :=
          @NamesSurrogate.refused [] false (c.skipBlank.location.walk ['"']) text front hnames
        obtain rfl := Except.error.inj (hread.symm.trans hfault)
        rfl
      · rcases Stands.plain.refused hread with ⟨front, after, htext, hlocation, hfront⟩ |
          ⟨front, hnames, -⟩
        · exact ⟨front, after, htext, hlocation, hfront⟩
        · exact absurd hnames (hnone front)

/-- A surrogate in a literal that is not closed. -/
def surrogateSource : String :=
  " \"a\\u\x7bd800\x7d"

theorem stringLiteral_rejects_surrogate :
    0 ≤ (Cursor.ofString surrogateSource).location.offset ∧
      (Cursor.ofString surrogateSource).skipBlank.rest = '"' :: "a\\u\x7bd800\x7d".toList ∧
      (∀ pieces after,
        (Cursor.ofString surrogateSource).skipBlank.rest ≠ literal pieces ++ after) ∧
      ∃ problem, Rule.stringLiteral (.ofString surrogateSource) =
        (.failed problem, (Cursor.ofString surrogateSource).skipBlank) ∧
        problem.code = "E100" ∧ problem.location = ⟨6, 0, 6, 6⟩ := by
  have hquote : (Cursor.ofString surrogateSource).skipBlank.rest =
      '"' :: "a\\u\x7bd800\x7d".toList := by decide
  have hmalformed : ∀ pieces after,
      (Cursor.ofString surrogateSource).skipBlank.rest ≠ literal pieces ++ after := by
    intro pieces after htext
    have hclosed : '"' ∈ (Cursor.ofString surrogateSource).skipBlank.rest.tail := by
      rw [htext]
      simp [literal]
    exact absurd hclosed (by decide)
  have hnames : NamesSurrogate "a\\u\x7bd800\x7d".toList ['a', '\\', 'u', '{'] :=
    ⟨[.raw 'a' (by decide)], ⟨'d', by decide⟩, ⟨'8', by decide⟩, ⟨'0', by decide⟩,
      ⟨'0', by decide⟩, by decide, [], rfl, rfl⟩
  obtain ⟨problem, hfailed, hcode, hlocation, -⟩ :=
    stringLiteral_rejects (by decide) hquote hmalformed
  exact ⟨by decide, hquote, hmalformed, problem, hfailed, hcode, hlocation _ hnames⟩

end KestrelCompiler.StringLiteral
