import Mathlib.Algebra.Group.Nat.Defs
import KestrelCompiler.Proofs.Ir.Escape
import KestrelCompiler.Text.Quoted

/-!
Texts in quotes. Each character of a quoted text can be read back from how it is written, so that
different texts are quoted in different ways, and none of them takes more than one line.
-/

namespace KestrelCompiler.Text

section Hexadecimal

/-- The number that hexadecimal digits stand for. -/
def hexNumber (digits : List Char) : Nat :=
  ofDigits 16 (digits.map fun c => (hexValue? c).getD 0)

theorem hexNumber_concat (digits : List Char) (c : Char) :
    hexNumber (digits ++ [c]) = 16 * hexNumber digits + (hexValue? c).getD 0 := by
  simp [hexNumber, ofDigits]

theorem hexNumber_toDigits (n : Nat) : hexNumber (Nat.toDigits 16 n) = n := by
  induction n using Nat.strongRecOn with
  | _ n ih =>
      by_cases hlt : n < 16
      · rw [Nat.toDigits_of_lt_base hlt]
        simp [hexNumber, ofDigits, Ir.hexValue?_digitChar n hlt]
      · have hdigit := Ir.hexValue?_digitChar (n % 16) (Nat.mod_lt n (by decide))
        rw [Nat.toDigits_of_base_le (by decide) (Nat.le_of_not_lt hlt), hexNumber_concat,
          ih (n / 16) (by omega), hdigit, Option.getD_some, Nat.div_add_mod]

/-- Zeros in front do not count. -/
theorem hexNumber_hexadecimal (n width : Nat) : hexNumber (hexadecimal n width) = n := by
  have hzeros : ∀ (k : Nat) (digits : List Char),
      hexNumber (List.replicate k '0' ++ digits) = hexNumber digits := by
    intro k digits
    induction k with
    | zero => rfl
    | succ k ih => exact ih
  exact (hzeros _ _).trans (hexNumber_toDigits n)

theorem length_hexadecimal {n width : Nat} (hpos : 0 < width) (h : n < 16 ^ width) :
    (hexadecimal n width).length = width := by
  have hle := (Nat.length_toDigits_le_iff (by decide) hpos).mpr h
  rw [hexadecimal, List.length_append, List.length_replicate]
  omega

theorem isSome_of_mem_toDigits {n : Nat} : ∀ c ∈ Nat.toDigits 16 n, (hexValue? c).isSome := by
  induction n using Nat.strongRecOn with
  | _ n ih =>
      intro c hc
      by_cases hlt : n < 16
      · rw [Nat.toDigits_of_lt_base hlt, List.mem_singleton] at hc
        rw [hc, Ir.hexValue?_digitChar n hlt]
        rfl
      · rw [Nat.toDigits_of_base_le (by decide) (Nat.le_of_not_lt hlt), List.mem_append,
          List.mem_singleton] at hc
        rcases hc with hc | rfl
        · exact ih (n / 16) (by omega) c hc
        · rw [Ir.hexValue?_digitChar _ (Nat.mod_lt n (by decide))]
          rfl

theorem lineFeed_not_mem_hexadecimal (n width : Nat) : '\n' ∉ hexadecimal n width := by
  intro h
  rcases List.mem_append.mp h with h | h
  · exact absurd (List.eq_of_mem_replicate h) (by decide)
  · exact absurd (isSome_of_mem_toDigits _ h) (by decide)

end Hexadecimal

/-- The first character of what stands between the marks of a quoted text, and what is written
behind it. -/
def readQuoted : List Char → Char × List Char
  | '\\' :: 'n' :: rest => ('\n', rest)
  | '\\' :: 'r' :: rest => ('\r', rest)
  | '\\' :: 't' :: rest => ('\t', rest)
  | '\\' :: 'x' :: rest => (Char.ofNat (hexNumber (rest.take 2)), rest.drop 2)
  | '\\' :: 'u' :: rest => (Char.ofNat (hexNumber (rest.take 4)), rest.drop 4)
  | '\\' :: 'U' :: rest => (Char.ofNat (hexNumber (rest.take 8)), rest.drop 8)
  | '\\' :: c :: rest => (c, rest)
  | c :: rest => (c, rest)
  | [] => ('"', [])

theorem hexadecimal_read {c : Char} {width : Nat} (hpos : 0 < width) (h : c.toNat < 16 ^ width)
    (rest : List Char) :
    (Char.ofNat (hexNumber ((hexadecimal c.toNat width ++ rest).take width)),
      (hexadecimal c.toNat width ++ rest).drop width) = (c, rest) := by
  rw [List.take_left' (length_hexadecimal hpos h), List.drop_left' (length_hexadecimal hpos h),
    hexNumber_hexadecimal, Char.ofNat_toNat]

/-- A quotation mark is a single or a double one. -/
theorem quotationMark_cases (text : List Char) :
    quotationMark text = '\'' ∨ quotationMark text = '"' := by
  rw [quotationMark]
  split
  · exact .inr rfl
  · exact .inl rfl

theorem readQuoted_plain {c : Char} (h : c ≠ '\\') (rest : List Char) :
    readQuoted (c :: rest) = (c, rest) := by
  rw [readQuoted.eq_def]
  split <;> simp_all

theorem readQuoted_escaped {mark : Char} (hmark : mark = '\'' ∨ mark = '"') (c : Char)
    (rest : List Char) : readQuoted (escaped mark c ++ rest) = (c, rest) := by
  unfold escaped
  by_cases hself : c = mark ∨ c = '\\'
  · rw [if_pos (by simpa using hself)]
    rcases hself with rfl | rfl
    · rcases hmark with rfl | rfl <;> rfl
    · rfl
  have hslash : c ≠ '\\' := fun h => hself (.inr h)
  rw [if_neg (by simpa using hself)]
  by_cases hfeed : c = '\n'
  · rw [if_pos hfeed, hfeed]
    rfl
  by_cases hreturn : c = '\r'
  · rw [if_neg hfeed, if_pos hreturn, hreturn]
    rfl
  by_cases htab : c = '\t'
  · rw [if_neg hfeed, if_neg hreturn, if_pos htab, htab]
    rfl
  rw [if_neg hfeed, if_neg hreturn, if_neg htab]
  split
  · exact readQuoted_plain hslash rest
  · split
    · next h => exact hexadecimal_read (by decide) h rest
    · split
      · next h => exact hexadecimal_read (by decide) h rest
      · exact hexadecimal_read (by decide) c.val.toNat_lt rest

section Escaped

variable {mark : Char}

theorem escaped_ne_nil (c : Char) : escaped mark c ≠ [] := by
  unfold escaped
  repeat' split
  all_goals exact List.cons_ne_nil _ _

theorem lineFeed_not_mem_escaped (hmark : mark = '\'' ∨ mark = '"') (c : Char) :
    '\n' ∉ escaped mark c := by
  have hletters : ∀ {x : Char} {digits : List Char}, x ≠ '\n' → '\n' ∉ digits →
      '\n' ∉ '\\' :: x :: digits := by
    intro x digits hx hdigits hmem
    simp [hx.symm, hdigits] at hmem
  unfold escaped
  by_cases hself : c = mark ∨ c = '\\'
  · rw [if_pos (by simpa using hself)]
    rcases hself with rfl | rfl
    · rcases hmark with rfl | rfl <;> decide
    · decide
  rw [if_neg (by simpa using hself)]
  repeat' split
  · decide
  · decide
  · decide
  · next hfeed _ _ _ => simpa using Ne.symm hfeed
  all_goals exact hletters (by decide) (lineFeed_not_mem_hexadecimal _ _)

/-- Characters are read back one by one. -/
theorem flatMap_escaped_inj (hmark : mark = '\'' ∨ mark = '"') {a b : List Char}
    (h : a.flatMap (escaped mark) = b.flatMap (escaped mark)) : a = b := by
  induction a generalizing b with
  | nil =>
      cases b with
      | nil => rfl
      | cons d more => exact absurd (List.append_eq_nil_iff.mp h.symm).1 (escaped_ne_nil d)
  | cons c rest ih =>
      cases b with
      | nil => exact absurd (List.append_eq_nil_iff.mp h).1 (escaped_ne_nil c)
      | cons d more =>
          have hread := congrArg readQuoted h
          rw [List.flatMap_cons, List.flatMap_cons, readQuoted_escaped hmark,
            readQuoted_escaped hmark, Prod.mk.injEq] at hread
          rw [hread.1, ih hread.2]

end Escaped

/-- Different texts are quoted in different ways. -/
theorem quote_inj {a b : String} (h : quote a = quote b) : a = b := by
  have hlists := String.ofList_injective h
  simp only [List.cons_append, List.cons.injEq] at hlists
  obtain ⟨hmark, hbody⟩ := hlists
  rw [← hmark, List.append_cancel_right_eq] at hbody
  exact String.toList_injective (flatMap_escaped_inj (quotationMark_cases _) hbody)

/-- A quoted text takes one line. -/
theorem lineFeed_not_mem_quote (text : String) : '\n' ∉ (quote text).toList := by
  have hmark := quotationMark_cases text.toList
  have hne : '\n' ≠ quotationMark text.toList := by
    rcases hmark with h | h <;> rw [h] <;> decide
  rw [quote, String.toList_ofList]
  intro hmem
  simp only [List.cons_append, List.mem_cons, List.mem_append, List.not_mem_nil, or_false] at hmem
  rcases hmem with hmem | hmem | hmem
  · exact hne hmem
  · obtain ⟨c, -, hc⟩ := List.mem_flatMap.mp hmem
    exact lineFeed_not_mem_escaped hmark c hc
  · exact hne hmem

/-- A quoted text begins with its mark. -/
theorem head?_quote (text : String) :
    (quote text).toList.head? = some (quotationMark text.toList) := by
  rw [quote, String.toList_ofList]
  rfl

end KestrelCompiler.Text
