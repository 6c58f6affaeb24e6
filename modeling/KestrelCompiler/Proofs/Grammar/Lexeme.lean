import KestrelCompiler.Proofs.Grammar.Lookahead
import KestrelCompiler.Proofs.Grammar.Progress

/-!
The lexemes that rules read are those of the grammar. A cursor and a position are compared after the
blanks before the next lexeme, so that it does not matter how many of them were skipped already.
-/

namespace KestrelCompiler

namespace Cursor

def position (c : Cursor) : Position where
  location := c.location
  rest := c.rest

/-- The cursor stands at the position, up to blanks before the next lexeme. -/
def At (c : Cursor) (p : Position) : Prop :=
  0 ≤ c.location.offset ∧ c.position.skip = p.skip

theorem position_skipBlank {c : Cursor} (h : 0 ≤ c.location.offset) :
    c.skipBlank.position = c.position.skip := by
  simp only [position, Position.skip, skipBlank_location h, rest_skipBlank h]

theorem At.self {c : Cursor} (h : 0 ≤ c.location.offset) : c.At c.position :=
  ⟨h, rfl⟩

theorem At.skipBlank {c : Cursor} {p : Position} (h : c.At p) : c.skipBlank.At p := by
  refine ⟨nonneg_skipBlank h.1, ?_⟩
  rw [position_skipBlank h.1, Position.skip_skip, h.2]

theorem At.location_skipBlank {c : Cursor} {p : Position} (h : c.At p) :
    c.skipBlank.location = p.skip.location := by
  have hskip := position_skipBlank h.1
  rw [h.2] at hskip
  exact congrArg Position.location hskip

theorem At.rest_skipBlank {c : Cursor} {p : Position} (h : c.At p) :
    c.skipBlank.rest = p.skip.rest := by
  have hskip := position_skipBlank h.1
  rw [h.2] at hskip
  exact congrArg Position.rest hskip

/-- The cursor behind a lexeme stands at the position after it. -/
theorem At.moveTo_walk {c : Cursor} {p q : Position} {word : List Char} (h : c.At p)
    (hrest : p.skip.rest = word ++ q.rest) (hq : q.location = p.skip.location.walk word) :
    (c.moveTo (p.skip.location.walk word)).At q := by
  have hblank := nonneg_skipBlank h.1
  have hposition : (c.moveTo (p.skip.location.walk word)).position = q := by
    have hafter := Cursor.rest_moveTo_walk hblank (h.rest_skipBlank.trans hrest)
    rw [h.location_skipBlank] at hafter
    cases q
    simp_all [position]
  refine ⟨?_, congrArg Position.skip hposition⟩
  rw [moveTo_location, ← h.location_skipBlank]
  exact nonneg_walk hblank word

end Cursor

namespace Lexeme

/-- The lexeme is the one of this shape. -/
def Finds (l : Lexeme) (shape : Shape) : Prop :=
  ∀ c : Cursor, 0 ≤ c.location.offset → ∀ span, l c = some span ↔
    ∃ word after, c.rest = word ++ after ∧ shape word after ∧
      span = ⟨c.location, c.location.walk word⟩

theorem finds_run (accepts : Char → Bool) : (run accepts).Finds (.run accepts) := by
  intro c hc span
  rw [run, Cursor.ahead_of_nonneg hc]
  constructor
  · intro h
    have hsplit := (List.takeWhile_append_dropWhile (p := accepts) (l := c.rest)).symm
    split at h
    · cases h
    · next text hne =>
        refine ⟨_, _, hsplit, ⟨by simpa using hne, ?_, head?_dropWhile_eq_false _ _⟩,
          (Option.some.inj h).symm⟩
        exact List.all_eq_true.mp List.all_takeWhile
  · rintro ⟨word, after, hrest, ⟨hne, hword, hafter⟩, rfl⟩
    rw [hrest, (takeWhile_append_eq hword hafter).1]
    cases word with
    | nil => exact absurd rfl hne
    | cons d more => rfl

theorem finds_literal {text : String} (h : text.toList ≠ []) :
    (literal text).Finds (.fixed text) := by
  intro c hc span
  rw [Cursor.literal_iff hc]
  constructor
  · rintro ⟨-, ⟨after, hrest⟩, rfl⟩
    exact ⟨_, after, hrest, rfl, rfl⟩
  · rintro ⟨word, after, hrest, rfl, rfl⟩
    exact ⟨h, ⟨after, hrest⟩, rfl⟩

/-- A lexeme that also looks at the next character. -/
theorem Finds.filter {l : Lexeme} {shape : Shape} (h : l.Finds shape)
    (keep : Option Char → Bool) :
    Finds (fun c => (l c).filter fun span => keep (c.charAt? span.stop))
      fun word after => shape word after ∧ keep after.head? = true := by
  intro c hc span
  rw [Option.filter_eq_some_iff, h c hc]
  constructor
  · rintro ⟨⟨word, after, hrest, hshape, rfl⟩, hkeep⟩
    rw [Cursor.charAt?_walk hc hrest] at hkeep
    exact ⟨word, after, hrest, ⟨hshape, hkeep⟩, rfl⟩
  · rintro ⟨word, after, hrest, ⟨hshape, hkeep⟩, rfl⟩
    refine ⟨⟨word, after, hrest, hshape, rfl⟩, ?_⟩
    rw [Cursor.charAt?_walk hc hrest]
    exact hkeep

theorem Finds.congr {l : Lexeme} {shape shape' : Shape} (h : l.Finds shape)
    (hshape : ∀ word after, shape word after ↔ shape' word after) : l.Finds shape' := by
  intro c hc span
  rw [h c hc]
  simp only [hshape]

theorem finds_keyword {text : String} (h : text.toList ≠ []) :
    (keyword text).Finds (.keyword text) := by
  refine ((finds_literal h).filter fun o => o.all Text.isBlank).congr fun word after => ?_
  simp only [Shape.fixed, Shape.keyword, Option.all_eq_true, Option.mem_def]

theorem finds_identifier : identifier.Finds .identifier :=
  finds_run isIdentChar

theorem finds_directiveName : directiveName.Finds .directiveName := by
  refine (finds_identifier.filter fun o => o = some '!').congr fun word after => ?_
  simp only [Shape.directiveName, decide_eq_true_eq]

theorem peek?_eq_head? {c : Cursor} (hc : 0 ≤ c.location.offset) : c.peek? = c.rest.head? :=
  @Cursor.charAt?_walk c hc [] _ rfl

theorem finds_numeral : numeral.Finds .number := by
  intro c hc span
  rw [numeral, peek?_eq_head? hc, Option.ite_none_right_eq_some, finds_run isNumberChar c hc]
  constructor
  · rintro ⟨hfirst, word, after, hrest, ⟨hne, hword, hafter⟩, rfl⟩
    cases word with
    | nil => exact absurd rfl hne
    | cons first more =>
        rw [hrest] at hfirst
        refine ⟨_, after, hrest, ⟨⟨first, more, rfl, hfirst, fun d hd => ?_⟩, hafter⟩, rfl⟩
        exact hword d (List.mem_cons_of_mem _ hd)
  · rintro ⟨word, after, hrest, ⟨⟨first, more, rfl, hfirst, hmore⟩, hafter⟩, rfl⟩
    refine ⟨by rw [hrest]; exact hfirst, _, after, hrest, ⟨List.cons_ne_nil _ _, ?_, hafter⟩, rfl⟩
    intro d hd
    rcases List.mem_cons.mp hd with rfl | hd
    · exact isNumberChar_of_isNumeric hfirst
    · exact hmore d hd

end Lexeme

namespace Rule

variable {l : Lexeme} {shape : Shape} {c c' : Cursor} {p q : Position} {t : Token}

theorem lexeme_sound (hfinds : l.Finds shape) (hsolid : shape.Solid) (hc : c.At p)
    (h : lexeme l c = (.matched t, c')) : ∃ q, Position.Reads shape p t q ∧ c'.At q := by
  have hblank := Cursor.nonneg_skipBlank hc.1
  obtain ⟨span, hfound, rfl, rfl⟩ := lexeme_eq_matched.mp h
  obtain ⟨word, after, hrest, hshape, rfl⟩ := (hfinds _ hblank _).mp hfound
  have htoken := Cursor.ofSpan_walk hblank hrest
  rw [hc.rest_skipBlank] at hrest
  rw [Cursor.skipBlank_source] at htoken
  rw [htoken, hc.location_skipBlank]
  let q : Position := ⟨p.skip.location.walk word, after⟩
  exact ⟨q, (Position.reads_iff hsolid).mpr ⟨word, hshape, hrest, rfl, rfl⟩,
    hc.moveTo_walk hrest rfl⟩

theorem lexeme_complete (hfinds : l.Finds shape) (hsolid : shape.Solid) (hc : c.At p)
    (h : Position.Reads shape p t q) : ∃ c', lexeme l c = (.matched t, c') ∧ c'.At q := by
  have hblank := Cursor.nonneg_skipBlank hc.1
  obtain ⟨word, hshape, hrest, hq, rfl⟩ := (Position.reads_iff hsolid).mp h
  have hword := hc.rest_skipBlank.trans hrest
  refine ⟨_, lexeme_eq_matched.mpr ⟨_, (hfinds _ hblank _).mpr ⟨word, q.rest, hword, hshape, rfl⟩,
    ?_, rfl⟩, ?_⟩
  · rw [← hc.location_skipBlank]
    exact Cursor.ofSpan_walk hblank hword
  · rw [hc.location_skipBlank]
    exact hc.moveTo_walk hrest hq

theorem lexeme_absent (hfinds : l.Finds shape) (hsolid : shape.Solid) (hc : c.At p)
    (h : ∀ t q, ¬ Position.Reads shape p t q) : lexeme l c = (.noMatch, c.skipBlank) := by
  refine lexeme_eq_noMatch.mpr ⟨?_, rfl⟩
  cases hfound : l c.skipBlank with
  | none => rfl
  | some span =>
      have hmatch := lexeme_eq_matched.mpr ⟨_, hfound, rfl, rfl⟩
      obtain ⟨q, hreads, -⟩ := lexeme_sound hfinds hsolid hc hmatch
      exact absurd hreads (h _ q)

theorem lexeme_noMatch (hfinds : l.Finds shape) (hsolid : shape.Solid) (hc : c.At p)
    (h : lexeme l c = (.noMatch, c')) : c'.At p ∧ ∀ t q, ¬ Position.Reads shape p t q := by
  obtain ⟨hnone, rfl⟩ := lexeme_eq_noMatch.mp h
  refine ⟨hc.skipBlank, fun t q hreads => ?_⟩
  obtain ⟨c'', hmatch, -⟩ := lexeme_complete hfinds hsolid hc hreads
  rw [h] at hmatch
  cases hmatch

theorem sees_sound (hfinds : l.Finds shape) (hsolid : shape.Solid) (hc : c.At p) :
    (l c.skipBlank).isSome = true ↔ ∃ t q, Position.Reads shape p t q := by
  constructor
  · intro h
    obtain ⟨span, hfound⟩ := Option.isSome_iff_exists.mp h
    have hmatch := lexeme_eq_matched.mpr ⟨_, hfound, rfl, rfl⟩
    obtain ⟨q, hreads, -⟩ := lexeme_sound hfinds hsolid hc hmatch
    exact ⟨_, q, hreads⟩
  · rintro ⟨t, q, hreads⟩
    obtain ⟨c', hmatch, -⟩ := lexeme_complete hfinds hsolid hc hreads
    obtain ⟨span, hfound, -⟩ := lexeme_eq_matched.mp hmatch
    exact Option.isSome_iff_exists.mpr ⟨span, hfound⟩

theorem atEnd_skipBlank (hc : c.At p) : c.skipBlank.atEnd = true ↔ p.next? = none := by
  rw [Position.next?, ← hc.rest_skipBlank, List.head?_eq_none_iff, Cursor.rest,
    List.drop_eq_nil_iff, Cursor.atEnd, decide_eq_true_eq]
  have := Cursor.nonneg_skipBlank hc.1
  omega

end Rule

end KestrelCompiler
