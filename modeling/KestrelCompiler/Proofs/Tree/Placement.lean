import KestrelCompiler.Proofs.Grammar.Lexeme
import KestrelCompiler.Proofs.StringLiteral.Fault
import KestrelCompiler.Proofs.Tree.Order

/-!
Rules on the points of a source. A rule leads from a point of the source to a point of it further
on, the tokens it keeps follow one another between the two, and a problem lies at a point as well.
The tokens read so far are carried through a composed rule, so that each part of it only adds its
own.
-/

namespace KestrelCompiler

open Location Token

/-- The cursor stands in the source after `k` characters. -/
structure Cursor.On (source : List Char) (k : Nat) (c : Cursor) : Prop where
  le : k ≤ source.length
  location : c.location = point source k
  source : c.source = source

namespace Cursor.On

variable {source : List Char} {k : Nat} {c : Cursor}

theorem ofString (source : String) : On source.toList 0 (.ofString source) :=
  ⟨Nat.zero_le _, rfl, rfl⟩

theorem offset (h : c.On source k) : c.location.offset = k := by
  rw [h.location]
  exact (isPoint_point h.le).offset

theorem nonneg (h : c.On source k) : 0 ≤ c.location.offset := by
  rw [h.offset]
  exact Int.natCast_nonneg k

theorem rest (h : c.On source k) : c.rest = source.drop k := by
  rw [Cursor.rest, h.source, h.offset, Int.toNat_natCast]

/-- A piece of the text ahead leads to a point. -/
theorem walk (h : c.On source k) {word after : List Char} (hrest : c.rest = word ++ after) :
    ∃ j, k ≤ j ∧ j ≤ source.length ∧ c.location.walk word = point source j := by
  rw [h.rest] at hrest
  have hlength := congrArg List.length hrest
  rw [List.length_drop, List.length_append] at hlength
  have hle := h.le
  refine ⟨k + word.length, by omega, by omega, ?_⟩
  rw [h.location, walk_point hrest]

theorem moveTo (h : c.On source k) {l : Location} {j : Nat} (hj : j ≤ source.length)
    (hl : l = point source j) : (c.moveTo l).On source j :=
  ⟨hj, hl, h.source⟩

theorem skipBlank (h : c.On source k) : ∃ j, k ≤ j ∧ c.skipBlank.On source j := by
  obtain ⟨j, hkj, hj, hwalk⟩ := h.walk
    (List.takeWhile_append_dropWhile (p := Text.isBlank) (l := c.rest)).symm
  refine ⟨j, hkj, h.moveTo hj ?_⟩
  rw [ahead_of_nonneg h.nonneg, hwalk]

end Cursor.On

namespace Lexeme

/-- The lexeme is a piece of the text ahead. -/
def Within (l : Lexeme) : Prop :=
  ∀ c span, 0 ≤ c.location.offset → l c = some span →
    ∃ word after, c.rest = word ++ after ∧ span = ⟨c.location, c.location.walk word⟩

theorem Finds.within {l : Lexeme} {shape : Shape} (h : l.Finds shape) : l.Within := by
  intro c span hc hfound
  obtain ⟨word, after, hrest, -, hspan⟩ := (h c hc span).mp hfound
  exact ⟨word, after, hrest, hspan⟩

theorem within_literal (text : String) : (literal text).Within := by
  intro c span hc hfound
  obtain ⟨-, ⟨after, hrest⟩, hspan⟩ := (Cursor.literal_iff hc).mp hfound
  exact ⟨text.toList, after, hrest, hspan⟩

theorem within_keyword (text : String) : (keyword text).Within :=
  fun c span hc hfound => within_literal text c span hc (Option.filter_eq_some_iff.mp hfound).1

theorem Within.between {l : Lexeme} (h : l.Within) {source : List Char} {k : Nat} {c : Cursor}
    (hc : c.On source k) {span : Span} (hfound : l c = some span) :
    ∃ j, k ≤ j ∧ j ≤ source.length ∧ span = .between source k j := by
  obtain ⟨word, after, hrest, rfl⟩ := h c span hc.nonneg hfound
  obtain ⟨j, hkj, hj, hwalk⟩ := hc.walk hrest
  refine ⟨j, hkj, hj, ?_⟩
  rw [hwalk, hc.location]
  rfl

end Lexeme

theorem Cursor.On.takeLexeme {source : List Char} {k : Nat} {c : Cursor} (h : c.On source k)
    {l : Lexeme} (hl : l.Within) :
    ∃ j, k ≤ j ∧ (c.takeLexeme l).2.On source j ∧
      ∀ t ∈ (c.takeLexeme l).1, ∃ i, k ≤ i ∧ i ≤ j ∧ t.span = .between source i j := by
  obtain ⟨i, hki, hi⟩ := h.skipBlank
  rw [Cursor.takeLexeme]
  cases hfound : l c.skipBlank with
  | none => exact ⟨i, hki, hi, by simp⟩
  | some span =>
      obtain ⟨j, hij, hj, rfl⟩ := hl.between hi hfound
      refine ⟨j, Nat.le_trans hki hij, h.moveTo hj rfl, ?_⟩
      rintro t ⟨⟩
      exact ⟨i, hki, hij, rfl⟩

variable {α β σ : Type}

/-- The tokens of a match are in order from `i` to `j`; a problem lies at a point of the source. -/
def Outcome.Placed (source : List Char) (tokens : α → List Token) (i j : Nat) : Outcome α → Prop
  | matched a => InOrder source i (tokens a) j
  | noMatch => True
  | failed p => ∃ k ≤ source.length, p.location = point source k

namespace Rule

/-- From a point up to which the tokens `before` were read, the rule leads to a point further on, up
to which the tokens of what it matched are read. -/
def Adds (source : List Char) (before : List Token) (r : Rule α) (tokens : α → List Token) : Prop :=
  ∀ i k c, c.On source k → InOrder source i before k →
    ∃ j, k ≤ j ∧ (r c).2.On source j ∧ (r c).1.Placed source tokens i j

variable {source : List Char} {before : List Token} {r s : Rule α} {f : α → Rule β}
  {tokens xs ys : α → List Token} {tokens' : β → List Token}

theorem adds_pure {a : α} (h : tokens a = before) : Adds source before (pure a) tokens := by
  intro i k c hc hbefore
  refine ⟨k, Nat.le_refl k, hc, ?_⟩
  rw [← h] at hbefore
  exact hbefore

theorem adds_never : Adds source before never tokens :=
  fun _ k _ hc _ => ⟨k, Nat.le_refl k, hc, trivial⟩

theorem adds_fail (e : Expectation) : Adds source before (fail e) tokens := by
  intro i k c hc hbefore
  obtain ⟨j, hkj, hj⟩ := hc.skipBlank
  exact ⟨j, hkj, hj, j, hj.le, hj.location⟩

theorem adds_bind (hr : Adds source before r tokens)
    (hf : ∀ a, Adds source (tokens a) (f a) tokens') : Adds source before (r >>= f) tokens' := by
  intro i k c hc hbefore
  obtain ⟨j, hkj, hj, hplaced⟩ := hr i k c hc hbefore
  change ∃ m, k ≤ m ∧ (Rule.bind r f c).2.On source m ∧
    (Rule.bind r f c).1.Placed source tokens' i m
  rw [Rule.bind]
  rcases hrc : r c with ⟨a | - | p, c₁⟩ <;> rw [hrc] at hj hplaced
  · obtain ⟨m, hjm, hm, hthen⟩ := hf a i j c₁ hj hplaced
    exact ⟨m, Nat.le_trans hkj hjm, hm, hthen⟩
  · exact ⟨j, hkj, hj, trivial⟩
  · exact ⟨j, hkj, hj, hplaced⟩

theorem adds_map (hr : Adds source before r tokens) {g : α → β}
    (h : ∀ a, tokens' (g a) = tokens a) : Adds source before (g <$> r) tokens' :=
  adds_bind hr fun a => adds_pure (h a)

theorem adds_orElse (hr : Adds source before r tokens) (hs : Adds source before s tokens) :
    Adds source before (r <|> s) tokens := by
  intro i k c hc hbefore
  obtain ⟨j, hkj, hj, hplaced⟩ := hr i k c hc hbefore
  change ∃ m, k ≤ m ∧ (Rule.orElse r (fun _ => s) c).2.On source m ∧
    (Rule.orElse r (fun _ => s) c).1.Placed source tokens i m
  rw [Rule.orElse]
  rcases hrc : r c with ⟨a | - | p, c₁⟩ <;> rw [hrc] at hj hplaced
  · exact ⟨j, hkj, hj, hplaced⟩
  · obtain ⟨m, hjm, hm, hthen⟩ := hs i j c₁ hj (hbefore.mono_right hkj)
    exact ⟨m, Nat.le_trans hkj hjm, hm, hthen⟩
  · exact ⟨j, hkj, hj, hplaced⟩

theorem adds_required (hr : Adds source before r tokens) (e : Expectation) :
    Adds source before (required r e) tokens :=
  adds_orElse hr (adds_fail e)

theorem adds_optional (hr : Adds source before r tokens) :
    Adds source before (optional r) fun o => o.elim before tokens :=
  adds_orElse (adds_map hr fun _ => rfl) (adds_pure rfl)

theorem adds_ite {b : Bool} (hr : Adds source before r tokens) (hs : Adds source before s tokens) :
    Adds source before (if b then r else s) tokens := by
  cases b with
  | false => exact hs
  | true => exact hr

/-- What was read before stays in front of what the rule adds. -/
theorem Adds.after (h : Adds source [] r tokens) (before : List Token) :
    Adds source before r fun a => before ++ tokens a := by
  intro i k c hc hbefore
  obtain ⟨j, hkj, hj, hplaced⟩ := h k k c hc (Nat.le_refl k)
  refine ⟨j, hkj, hj, ?_⟩
  cases hout : (r c).1 with
  | matched a =>
      rw [hout] at hplaced
      exact hbefore.append hplaced
  | noMatch => trivial
  | failed p =>
      rw [hout] at hplaced
      exact hplaced

/-- Tokens that a rule read need not be kept. -/
theorem Adds.drop (h : Adds source before r fun a => xs a ++ ys a) : Adds source before r xs := by
  intro i k c hc hbefore
  obtain ⟨j, hkj, hj, hplaced⟩ := h i k c hc hbefore
  refine ⟨j, hkj, hj, ?_⟩
  cases hout : (r c).1 with
  | matched a =>
      rw [hout] at hplaced
      obtain ⟨m, hxs, hys⟩ := inOrder_append.mp hplaced
      exact hxs.mono_right hys.le
  | noMatch => trivial
  | failed p =>
      rw [hout] at hplaced
      exact hplaced

theorem Adds.congr (h : Adds source before r xs) (heq : ∀ a, xs a = ys a) :
    Adds source before r ys := by
  rwa [← funext heq]

theorem adds_fix {step : (σ → Rule α) → σ → Rule α} (before : σ → List Token)
    (h : ∀ f, (∀ s, Adds source (before s) (f s) tokens) →
      ∀ s, Adds source (before s) (step f s) tokens) (s : σ) :
    Adds source (before s) (fix step s) tokens := by
  have hunroll : ∀ n s, Adds source (before s) (unroll step n s) tokens := by
    intro n
    induction n with
    | zero => exact fun _ => adds_never
    | succ n ih => exact h _ ih
  exact fun i k c => hunroll (c.remaining + 1) s i k c

theorem adds_sees (l : Lexeme) : Adds source before (sees l) fun _ => before := by
  intro i k c hc hbefore
  obtain ⟨j, hkj, hj⟩ := hc.skipBlank
  exact ⟨j, hkj, hj, hbefore.mono_right hkj⟩

theorem adds_hasMore : Adds source before hasMore fun _ => before := by
  intro i k c hc hbefore
  obtain ⟨j, hkj, hj⟩ := hc.skipBlank
  exact ⟨j, hkj, hj, hbefore.mono_right hkj⟩

theorem adds_lexeme {l : Lexeme} (hl : l.Within) :
    Adds source before (lexeme l) fun t => before ++ [t] := by
  intro i k c hc hbefore
  obtain ⟨j, hkj, hj, htoken⟩ := hc.takeLexeme hl
  rw [lexeme]
  rcases htake : c.takeLexeme l with ⟨- | t, c'⟩ <;> rw [htake] at hj htoken
  · exact ⟨j, hkj, hj, trivial⟩
  · obtain ⟨m, hkm, hmj, hspan⟩ := htoken t rfl
    exact ⟨j, hkj, hj, hbefore.append ⟨m, j, hkm, hmj, hspan, Nat.le_refl j⟩⟩

theorem adds_token (text : String) : Adds source before (token text) fun t => before ++ [t] :=
  adds_lexeme (Lexeme.within_literal text)

theorem adds_expect (text : String) : Adds source before (expect text) fun t => before ++ [t] :=
  adds_required (adds_token text) _

/-- A lexeme that may be there and is not kept. -/
theorem adds_optional_lexeme {l : Lexeme} (hl : l.Within) :
    Adds source before (optional (lexeme l)) fun _ => before := by
  have hlexeme : Adds source before (lexeme l) fun t => before ++ [t] := adds_lexeme hl
  exact (adds_optional hlexeme.drop).congr fun o => by cases o <;> rfl

/-- Where no literal is read, the cursor only moves over blanks. -/
theorem stringLiteral_stays {c c' : Cursor} {outcome : Outcome Token}
    (h : stringLiteral c = (outcome, c')) (hother : ∀ t, outcome ≠ .matched t) :
    c' = c.skipBlank := by
  rcases stringLiteral_cases c with ⟨span, body, -, -, hmatch⟩ | ⟨-, hstays⟩
  · exact absurd (Prod.mk.inj (h.symm.trans hmatch)).1 (hother _)
  · rw [h] at hstays
    exact hstays

theorem adds_stringLiteral : Adds source before stringLiteral fun t => before ++ [t] := by
  intro i k c hc hbefore
  obtain ⟨j, hkj, hj⟩ := hc.skipBlank
  rcases hout : stringLiteral c with ⟨t | - | p, c'⟩
  · obtain ⟨pieces, after, htext⟩ := StringLiteral.exists_pieces_of_stringLiteral hc.nonneg hout
    rw [StringLiteral.stringLiteral_literal hc.nonneg htext] at hout
    cases hout
    obtain ⟨m, hjm, hm, hwalk⟩ := hj.walk htext
    refine ⟨m, Nat.le_trans hkj hjm, hc.moveTo hm hwalk, hbefore.append ?_⟩
    refine ⟨j, m, hkj, hjm, ?_, Nat.le_refl m⟩
    rw [StringLiteral.Piece.token, hwalk, hj.location]
    rfl
  · obtain rfl := stringLiteral_stays hout (by simp)
    exact ⟨j, hkj, hj, trivial⟩
  · obtain rfl := stringLiteral_stays hout (by simp)
    obtain ⟨front, after, hrest, hlocation, -⟩ :=
      StringLiteral.stringLiteral_failed hc.nonneg hout
    obtain ⟨m, -, hm, hwalk⟩ := hj.walk hrest
    exact ⟨j, hkj, hj, m, hm, hlocation.trans hwalk⟩

end Rule

end KestrelCompiler
