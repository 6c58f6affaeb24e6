import KestrelCompiler.Ir.Printer

/-!
Initializers of string constants. Between the quotes of an initializer a backslash introduces a byte
in hexadecimal, or another backslash; what is written for bytes is read back as the same bytes.
-/

namespace KestrelCompiler.Ir

/-- The byte with these two hexadecimal digits. -/
def hexByte? (a b : Char) : Option UInt8 := do
  some (UInt8.ofNat (16 * (← Text.hexValue? a) + (← Text.hexValue? b)))

/-- The bytes that the text of an initializer stands for. A backslash that introduces nothing stands
for itself, and every other character for its UTF-8 bytes. -/
def unescape : List Char → List UInt8
  | '\\' :: '\\' :: rest => 0x5C :: unescape rest
  | '\\' :: a :: b :: rest =>
    match hexByte? a b with
    | some byte => byte :: unescape rest
    | none => 0x5C :: unescape (a :: b :: rest)
  | c :: rest => String.utf8EncodeChar c ++ unescape rest
  | [] => []

theorem unescape_plain {c : Char} (h : c ≠ '\\') (rest : List Char) :
    unescape (c :: rest) = String.utf8EncodeChar c ++ unescape rest := by
  rw [unescape.eq_def]
  split <;> simp_all

theorem unescape_hexByte {a b : Char} {byte : UInt8} (ha : a ≠ '\\') (h : hexByte? a b = some byte)
    (rest : List Char) : unescape ('\\' :: a :: b :: rest) = byte :: unescape rest := by
  rw [unescape, h]
  exact ha

section Digits

theorem hexValue?_digitChar : ∀ n < 16, Text.hexValue? n.digitChar = some n := by
  decide

theorem digitChar_letter : ∀ n < 16, n.digitChar ≠ '\\' ∧ n.digitChar ≠ '"' := by
  decide

/-- A byte has two digits. -/
theorem hexadecimal_two : ∀ n < 256,
    Text.hexadecimal n 2 = [(n / 16).digitChar, (n % 16).digitChar] := by
  decide +kernel

theorem hexByte?_digitChar (b : UInt8) :
    hexByte? (b.toNat / 16).digitChar (b.toNat % 16).digitChar = some b := by
  have hlt : b.toNat < 256 := b.toNat_lt
  rw [hexByte?, hexValue?_digitChar _ (by omega), hexValue?_digitChar _ (by omega)]
  change some (UInt8.ofNat (16 * (b.toNat / 16) + b.toNat % 16)) = some b
  rw [Nat.div_add_mod, UInt8.ofNat_toNat]

/-- A printable character of ASCII is one byte of UTF-8. -/
theorem utf8EncodeChar_printable : ∀ n < 0x7F, 0x20 ≤ n →
    String.utf8EncodeChar (Char.ofNat n) = [UInt8.ofNat n] := by
  decide +kernel

end Digits

/-- A byte is written as one character, or as a backslash and two digits. -/
theorem renderByte_cases (b : UInt8) :
    (∃ c, renderByte b = [c] ∧ c ≠ '\\' ∧ c ≠ '"' ∧ String.utf8EncodeChar c = [b]) ∨
      ∃ x y, renderByte b = ['\\', x, y] ∧ x ≠ '\\' ∧ x ≠ '"' ∧ y ≠ '"' ∧
        hexByte? x y = some b := by
  have hlt : b.toNat < 256 := b.toNat_lt
  rw [renderByte]
  split
  · next hprintable =>
      simp only [Bool.and_eq_true, decide_eq_true_eq] at hprintable
      obtain ⟨⟨⟨hlow, hhigh⟩, hquote⟩, hbackslash⟩ := hprintable
      have hencode := utf8EncodeChar_printable b.toNat hhigh hlow
      rw [UInt8.ofNat_toNat] at hencode
      refine .inl ⟨_, rfl, fun hc => hbackslash ?_, fun hc => hquote ?_, hencode⟩
      all_goals
        rw [hc] at hencode
        exact (List.singleton_inj.mp hencode).symm
  · obtain ⟨hx, hx'⟩ := digitChar_letter (b.toNat / 16) (by omega)
    obtain ⟨-, hy⟩ := digitChar_letter (b.toNat % 16) (by omega)
    rw [hexadecimal_two _ hlt]
    exact .inr ⟨_, _, rfl, hx, hx', hy, hexByte?_digitChar b⟩

/-- What is written for a byte is read back as that byte. -/
theorem unescape_renderByte (b : UInt8) (rest : List Char) :
    unescape (renderByte b ++ rest) = b :: unescape rest := by
  obtain ⟨c, hb, hc, -, hencode⟩ | ⟨x, y, hb, hx, -, -, hbyte⟩ := renderByte_cases b
  · rw [hb, List.singleton_append, unescape_plain hc, hencode]
    rfl
  · rw [hb]
    exact unescape_hexByte hx hbyte rest

theorem unescape_render (bytes : List UInt8) : unescape (bytes.flatMap renderByte) = bytes := by
  induction bytes with
  | nil => rfl
  | cons b rest ih => rw [List.flatMap_cons, unescape_renderByte, ih]

/-- No byte is written with a quotation mark. -/
theorem quote_not_mem_render (bytes : List UInt8) : '"' ∉ bytes.flatMap renderByte := by
  intro hmem
  obtain ⟨b, -, hquote⟩ := List.mem_flatMap.mp hmem
  obtain ⟨c, hb, -, hc, -⟩ | ⟨x, y, hb, -, hx, hy, -⟩ := renderByte_cases b
  · rw [hb, List.mem_singleton] at hquote
    exact hc hquote.symm
  · rw [hb] at hquote
    simp [hx.symm, hy.symm] at hquote

end KestrelCompiler.Ir
