import KestrelCompiler.Proofs.Grammar.Repair

/-!
Spellings of a number. Underscores may be put in or left out anywhere behind its first character.
What begins with a numeric character is a lexeme of the same kinds in all its spellings.
-/

namespace KestrelCompiler

namespace Text

/-- Another spelling of a word that begins with a numeric character: only underscores differ, and
they stand behind this character. -/
inductive Respelled : List Char → List Char → Prop
  | mk {c : Char} {more more' : List Char} : isNumeric c = true →
    more'.filter (· ≠ '_') = more.filter (· ≠ '_') → Respelled (c :: more) (c :: more')

namespace Respelled

variable {word word' : List Char}

theorem filter_eq (h : Respelled word word') :
    word'.filter (· ≠ '_') = word.filter (· ≠ '_') := by
  obtain ⟨-, hsame⟩ := h
  rw [List.filter_cons, List.filter_cons, hsame]

theorem head?_eq (h : Respelled word word') : word'.head? = word.head? := by
  obtain ⟨-, -⟩ := h
  rfl

/-- What holds of underscores and of all characters of one spelling holds of those of the other. -/
theorem forall_mem {accepts : Char → Bool} (h : Respelled word word')
    (hscore : accepts '_' = true) (hword : ∀ c ∈ word, accepts c = true) :
    ∀ c ∈ word', accepts c = true := by
  intro c hc
  by_cases hc' : c = '_'
  · rw [hc', hscore]
  · have hmem : c ∈ word'.filter (· ≠ '_') := List.mem_filter.mpr ⟨hc, decide_eq_true hc'⟩
    rw [h.filter_eq] at hmem
    exact hword c (List.mem_filter.mp hmem).1

end Respelled

end Text

open Text

namespace Shape

/-- A lexeme of this shape has it in all its spellings. -/
def Spelled (shape : Shape) : Prop :=
  ∀ word word' after, shape word after → Respelled word word' → shape word' after

theorem spelled_run {accepts : Char → Bool} (hscore : accepts '_' = true) :
    (run accepts).Spelled := by
  rintro word word' after ⟨-, hword, hafter⟩ h
  refine ⟨?_, h.forall_mem hscore hword, hafter⟩
  cases h
  exact List.cons_ne_nil _ _

theorem spelled_identifier : identifier.Spelled :=
  spelled_run rfl

theorem spelled_number : number.Spelled := by
  rintro word word' after ⟨⟨first, more, rfl, hfirst, hmore⟩, hafter⟩ h
  have hall : ∀ c ∈ word', isNumberChar c = true := h.forall_mem rfl
    (List.forall_mem_cons.mpr ⟨isNumberChar_of_isNumeric hfirst, hmore⟩)
  cases h
  exact ⟨⟨first, _, rfl, hfirst, fun c hc => hall c (List.mem_cons_of_mem first hc)⟩, hafter⟩

/-- What does not begin with a numeric character has no other spelling. -/
theorem spelled_of_head? {shape : Shape}
    (h : ∀ word after, shape word after → ∀ c ∈ word.head?, isNumeric c = false) :
    shape.Spelled := by
  intro word word' after hword hspelled
  cases hspelled with
  | mk hc _ =>
      rw [h _ after hword _ rfl] at hc
      cases hc

theorem spelled_name : name.Spelled :=
  spelled_of_head? fun _ _ h => h.2

theorem spelled_fixed {text : String} (h : text.toList.head?.any isNumeric = false) :
    (fixed text).Spelled := by
  refine spelled_of_head? fun word after hword c hc => ?_
  rw [← hword, hc] at h
  exact h

theorem spelled_keyword {text : String} (h : text.toList.head?.any isNumeric = false) :
    (keyword text).Spelled :=
  fun word word' after hword hspelled =>
    ⟨spelled_fixed h word word' after hword.1 hspelled, hword.2⟩

end Shape

end KestrelCompiler
