import KestrelCompiler.Proofs.Concatenation.Displacement
import KestrelCompiler.Proofs.Grammar.Lexeme

/-!
A rule on a text and the same rule on this text behind another one. No rule looks at what stands
before its cursor, so both do the same, and all points of what the second one gives are moved.
-/

namespace KestrelCompiler

open Location

variable {before : List Char}

namespace Cursor

/-- The cursor in its text behind another one. -/
def behind (before : List Char) (c : Cursor) : Cursor where
  source := before ++ c.source
  location := c.location.behind before

variable {c : Cursor}

theorem nonneg_behind (before : List Char) (h : c.location.Inside) :
    0 ≤ (c.behind before).location.offset := by
  have hoffset := h.offset
  simp only [behind, Location.behind]
  omega

theorem rest_behind (before : List Char) (h : c.location.Inside) :
    (c.behind before).rest = c.rest := by
  have hoffset := h.offset
  have hplace : (c.behind before).location.offset.toNat =
      before.length + c.location.offset.toNat := by
    simp only [behind, Location.behind]
    omega
  rw [rest, hplace]
  exact List.drop_length_add_append _

theorem remaining_behind (c : Cursor) : (c.behind before).remaining = c.remaining := by
  simp only [remaining, behind, Location.behind, List.length_append]
  omega

theorem atEnd_behind (c : Cursor) : (c.behind before).atEnd = c.atEnd := by
  simp only [atEnd, behind, Location.behind, List.length_append, decide_eq_decide]
  omega

theorem inside_skipBlank (h : c.location.Inside) : c.skipBlank.location.Inside :=
  h.walk _

theorem skipBlank_behind (h : c.location.Inside) :
    (c.behind before).skipBlank = c.skipBlank.behind before := by
  rw [skipBlank, skipBlank, ahead_of_nonneg (nonneg_behind before h), ahead_of_nonneg h.offset,
    rest_behind before h]
  simp only [behind, moveTo, behind_walk h]

end Cursor

section Lexemes

variable {l : Lexeme} {shape : Shape} {c : Cursor}

theorem Lexeme.Finds.behind (hl : l.Finds shape) (hc : c.location.Inside) :
    l (c.behind before) = (l c).map (Span.behind before) := by
  cases hfound : l c with
  | none =>
      cases hfound' : l (c.behind before) with
      | none => rfl
      | some span =>
          have hnonneg := Cursor.nonneg_behind before hc
          obtain ⟨word, after, hrest, hword, -⟩ := (hl _ hnonneg span).mp hfound'
          rw [Cursor.rest_behind before hc] at hrest
          have hsome := (hl c hc.offset _).mpr ⟨word, after, hrest, hword, rfl⟩
          rw [hfound] at hsome
          cases hsome
  | some span =>
      obtain ⟨word, after, hrest, hword, rfl⟩ := (hl c hc.offset span).mp hfound
      refine (hl _ (Cursor.nonneg_behind before hc) _).mpr ⟨word, after, ?_, hword, ?_⟩
      · rw [Cursor.rest_behind before hc, hrest]
      · simp only [Span.behind, Cursor.behind, behind_walk hc]

theorem Lexeme.Finds.inside_stop (hl : l.Finds shape) (hc : c.location.Inside) {span : Span}
    (hfound : l c = some span) : span.stop.Inside := by
  obtain ⟨word, -, -, -, rfl⟩ := (hl c hc.offset span).mp hfound
  exact hc.walk word

theorem Lexeme.Finds.ofSpan_behind (before : List Char) (hl : l.Finds shape)
    (hc : c.location.Inside) {span : Span} (hfound : l c = some span) :
    Token.ofSpan (before ++ c.source) (span.behind before) =
      (Token.ofSpan c.source span).behind before := by
  obtain ⟨word, after, hrest, -, rfl⟩ := (hl c hc.offset span).mp hfound
  have hrest' : (c.behind before).rest = word ++ after := by
    rw [Cursor.rest_behind before hc, hrest]
  have hmoved := Cursor.ofSpan_walk (Cursor.nonneg_behind before hc) hrest'
  rw [Cursor.ofSpan_walk hc.offset hrest]
  simp only [Cursor.behind, ← behind_walk hc] at hmoved
  exact hmoved

end Lexemes

namespace StringLiteral

def State.behind (before : List Char) : State → State
  | .digits left value first => .digits left value (first.behind before)
  | .closing value first => .closing value (first.behind before)
  | state => state

def Body.behind (before : List Char) (b : Body) : Body :=
  { b with stop := b.stop.behind before }

theorem State.endFault_behind (state : State) :
    (state.behind before).endFault = state.endFault := by
  cases state <;> rfl

theorem readBody_behind (before : List Char) (state : State) (read : List Char) (decoded : Bool)
    {l : Location} (hl : l.Inside) (text : List Char) :
    readBody (state.behind before) read decoded (l.behind before) text =
      ((readBody state read decoded l text).map (Body.behind before)).mapError
        (Problem.behind before) := by
  fun_induction readBody state read decoded l text
  case case1 state _ _ _ =>
      rw [readBody, State.endFault_behind]
      rfl
  case case2 => rfl
  case case3 ih =>
      rw [← ih (hl.advance _), behind_advance hl]
      simp [readBody, State.behind]
  case case10 ih =>
      rw [← ih (hl.advance _)]
      simp [readBody, State.behind, behind_advance hl]
  case case5 ih | case6 ih | case7 ih | case16 ih =>
      rw [← ih (hl.advance _), behind_advance hl]
      simp_all [readBody, State.behind]
  case case12 left value first _ _ _ _ _ d _ state ih =>
      have hstate : (if left ≤ 1 then State.closing (16 * value + d) (first.behind before)
          else .digits (left - 1) (16 * value + d) (first.behind before)) =
          State.behind before state := by
        simp only [state]
        split <;> rfl
      rw [← ih (hl.advance _), behind_advance hl]
      simp_all [readBody, State.behind]
  all_goals
    simp_all [readBody, State.behind, Except.map]
    rfl

theorem inside_stop_of_readBody {state : State} {read : List Char} {decoded : Bool} {l : Location}
    {text : List Char} {body : Body} (h : readBody state read decoded l text = .ok body)
    (hl : l.Inside) : body.stop.Inside := by
  fun_induction readBody state read decoded l text
  case case2 =>
      obtain rfl := Except.ok.inj h
      exact hl
  case case3 ih | case5 ih | case6 ih | case7 ih | case10 ih | case12 ih | case16 ih =>
      exact ih h (hl.advance _)
  all_goals cases h

theorem textAt_behind {l : Location} (hl : l.Inside) (c : Cursor) :
    textAt (c.behind before) (l.behind before) = textAt c l := by
  have hoffset := hl.offset
  have hplace : (l.behind before).offset.toNat = before.length + l.offset.toNat := by
    simp only [Location.behind]
    omega
  have hmoved : 0 ≤ (l.behind before).offset := by
    simp only [Location.behind]
    omega
  rw [textAt, textAt, if_pos hmoved, if_pos hoffset, hplace]
  exact List.drop_length_add_append _

end StringLiteral

variable {α α' β β' σ σ' : Type}

def Outcome.behind (before : List Char) (g : α → α') : Outcome α → Outcome α'
  | matched a => matched (g a)
  | noMatch => noMatch
  | failed p => failed (p.behind before)

namespace Rule

/-- Behind `before` the rule `s` does what `r` does without it; `g` moves what it matches. -/
def Parallel (before : List Char) (g : α → α') (r : Rule α) (s : Rule α') : Prop :=
  ∀ c : Cursor, c.location.Inside → (r c).2.location.Inside ∧
    s (c.behind before) = ((r c).1.behind before g, (r c).2.behind before)

section Calculus

variable {g : α → α'} {h : β → β'} {r t : Rule α} {s u : Rule α'}

theorem parallel_pure (a : α) : Parallel before g (pure a) (pure (g a)) :=
  fun _ hc => ⟨hc, rfl⟩

theorem parallel_never : Parallel before g never never :=
  fun _ hc => ⟨hc, rfl⟩

theorem parallel_fail (e : Expectation) : Parallel before g (fail e) (fail e) := by
  intro c hc
  refine ⟨Cursor.inside_skipBlank hc, ?_⟩
  rw [fail, Cursor.skipBlank_behind hc]
  rfl

theorem parallel_bind {f : α → Rule β} {f' : α' → Rule β'} (hr : Parallel before g r s)
    (hf : ∀ a, Parallel before h (f a) (f' (g a))) : Parallel before h (r >>= f) (s >>= f') := by
  intro c hc
  obtain ⟨hinside, hs⟩ := hr c hc
  change (Rule.bind r f c).2.location.Inside ∧ Rule.bind s f' _ = _
  simp only [Rule.bind, hs, show (r >>= f) c = Rule.bind r f c from rfl]
  rcases hrc : r c with ⟨a | - | p, c₁⟩
  · rw [hrc] at hinside
    exact hf a c₁ hinside
  · rw [hrc] at hinside
    exact ⟨hinside, rfl⟩
  · rw [hrc] at hinside
    exact ⟨hinside, rfl⟩

theorem parallel_map {k : α → β} {k' : α' → β'} (hr : Parallel before g r s)
    (hk : ∀ a, k' (g a) = h (k a)) : Parallel before h (k <$> r) (k' <$> s) := by
  refine parallel_bind hr fun a => ?_
  change Parallel before h (pure (k a)) (pure (k' (g a)))
  rw [hk]
  exact parallel_pure _

theorem parallel_orElse (hr : Parallel before g r s) (ht : Parallel before g t u) :
    Parallel before g (r <|> t) (s <|> u) := by
  intro c hc
  obtain ⟨hinside, hs⟩ := hr c hc
  change (Rule.orElse r (fun _ => t) c).2.location.Inside ∧ Rule.orElse s (fun _ => u) _ = _
  simp only [Rule.orElse, hs, show (r <|> t) c = Rule.orElse r (fun _ => t) c from rfl]
  rcases hrc : r c with ⟨a | - | p, c₁⟩
  · rw [hrc] at hinside
    exact ⟨hinside, rfl⟩
  · rw [hrc] at hinside
    exact ht c₁ hinside
  · rw [hrc] at hinside
    exact ⟨hinside, rfl⟩

theorem parallel_required (hr : Parallel before g r s) (e : Expectation) :
    Parallel before g (required r e) (required s e) :=
  parallel_orElse hr (parallel_fail e)

theorem parallel_optional (hr : Parallel before g r s) :
    Parallel before (Option.map g) (optional r) (optional s) :=
  parallel_orElse (parallel_map hr fun _ => rfl) (parallel_pure none)

theorem parallel_ite {b : Bool} (hr : Parallel before g r s) (ht : Parallel before g t u) :
    Parallel before g (if b then r else t) (if b then s else u) := by
  cases b with
  | false => exact ht
  | true => exact hr

/-- Both cursors have as much left to read, so that as many levels are unrolled. -/
theorem parallel_fix {step : (σ → Rule α) → σ → Rule α} {step' : (σ' → Rule α') → σ' → Rule α'}
    (k : σ → σ') (hstep : ∀ f f', (∀ s, Parallel before g (f s) (f' (k s))) →
      ∀ s, Parallel before g (step f s) (step' f' (k s))) (s : σ) :
    Parallel before g (fix step s) (fix step' (k s)) := by
  have hunroll : ∀ n s, Parallel before g (unroll step n s) (unroll step' n (k s)) := by
    intro n
    induction n with
    | zero => exact fun _ => parallel_never
    | succ n ih => exact hstep _ _ ih
  intro c hc
  rw [fix, fix, Cursor.remaining_behind]
  exact hunroll (c.remaining + 1) s c hc

end Calculus

section Lexemes

variable {l : Lexeme} {shape : Shape}

theorem parallel_lexeme (hl : l.Finds shape) :
    Parallel before (Token.behind before) (lexeme l) (lexeme l) := by
  intro c hc
  have hblank := Cursor.inside_skipBlank hc
  simp only [lexeme, Cursor.takeLexeme, Cursor.skipBlank_behind hc, hl.behind hblank]
  cases hfound : l c.skipBlank with
  | none => exact ⟨hblank, rfl⟩
  | some span =>
      refine ⟨hl.inside_stop hblank hfound, ?_⟩
      have htoken := hl.ofSpan_behind before hblank hfound
      simp only [Option.map_some, Outcome.behind, ← Cursor.skipBlank_source c, ← htoken]
      rfl

theorem parallel_sees (hl : l.Finds shape) : Parallel before id (sees l) (sees l) := by
  intro c hc
  have hblank := Cursor.inside_skipBlank hc
  refine ⟨hblank, ?_⟩
  rw [sees_apply, sees_apply, Cursor.skipBlank_behind hc, hl.behind hblank, Option.isSome_map]
  rfl

theorem parallel_hasMore : Parallel before id hasMore hasMore := by
  intro c hc
  refine ⟨Cursor.inside_skipBlank hc, ?_⟩
  rw [hasMore_apply, hasMore_apply, Cursor.skipBlank_behind hc, Cursor.atEnd_behind]
  rfl

theorem parallel_stringLiteral :
    Parallel before (Token.behind before) stringLiteral stringLiteral := by
  intro c hc
  have hblank := Cursor.inside_skipBlank hc
  have hquote : (Lexeme.literal "\"").Finds (.fixed "\"") := Lexeme.finds_literal (by decide)
  simp only [stringLiteral, Cursor.skipBlank_behind hc, hquote.behind hblank]
  cases hmark : Lexeme.literal "\"" c.skipBlank with
  | none => exact ⟨hblank, rfl⟩
  | some mark =>
      have hstop := hquote.inside_stop hblank hmark
      have hbody := StringLiteral.readBody_behind before .plain [] false hstop
        (StringLiteral.textAt c.skipBlank mark.stop)
      simp only [Option.map_some, Span.behind, StringLiteral.textAt_behind hstop]
      rw [show StringLiteral.State.plain = StringLiteral.State.plain.behind before from rfl, hbody]
      simp only [StringLiteral.State.behind]
      cases hread : StringLiteral.readBody .plain [] false mark.stop
          (StringLiteral.textAt c.skipBlank mark.stop) with
      | error problem => exact ⟨hblank, rfl⟩
      | ok body =>
          have hend := StringLiteral.inside_stop_of_readBody hread hstop
          refine ⟨hend.advance _, ?_⟩
          have hbehind : ((Except.ok body).map (StringLiteral.Body.behind before)).mapError
              (Problem.behind before) = .ok (body.behind before) := rfl
          simp only [hbehind, StringLiteral.Body.behind, ← behind_advance hend]
          rfl

end Lexemes

end Rule

end KestrelCompiler
