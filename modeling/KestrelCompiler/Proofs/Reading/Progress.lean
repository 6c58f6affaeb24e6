import KestrelCompiler.StringLiteral
import KestrelCompiler.Proofs.Reading.Outcome

/-!
Rules never go back, and most of them read at least one character when they match. A rule that calls
itself only where less is left to read has its step as an equation: enough levels are unrolled.
-/

namespace KestrelCompiler

/-- A lexeme that is found has at least one character of the source. -/
def Lexeme.Consumes (l : Lexeme) : Prop :=
  ∀ c span, l c = some span →
    c.location.offset < c.source.length ∧ c.location.offset < span.stop.offset

namespace Lexeme

theorem offset_lt_walk (l : Location) {text : List Char} (h : text ≠ []) :
    l.offset < (l.walk text).offset := by
  have hpos : 0 < text.length := List.length_pos_iff.mpr h
  rw [Location.offset_walk]
  omega

theorem consumes_run (accepts : Char → Bool) : (run accepts).Consumes := by
  intro c span h
  rw [run] at h
  split at h
  · cases h
  · next text hne =>
      obtain rfl := Option.some.inj h
      refine ⟨?_, offset_lt_walk _ (by simpa using hne)⟩
      rcases Int.lt_or_le c.location.offset c.source.length with hlt | hle
      · exact hlt
      · have hnonneg : 0 ≤ c.location.offset := by omega
        refine absurd ?_ hne
        rw [Cursor.ahead, if_pos hnonneg, List.drop_of_length_le (by omega), List.takeWhile_nil]

theorem consumes_literal (text : String) : (literal text).Consumes := by
  intro c span h
  rw [literal] at h
  simp only [Bool.and_eq_true, decide_eq_true_eq, List.isPrefixOf_iff_prefix,
    Option.ite_none_right_eq_some, Option.some.injEq] at h
  obtain ⟨⟨hne, hfix⟩, rfl⟩ := h
  refine ⟨?_, offset_lt_walk _ hne⟩
  rcases Int.lt_or_le c.location.offset c.source.length with hlt | hle
  · exact hlt
  · have hnonneg : 0 ≤ c.location.offset := by omega
    rw [Text.sliceFrom_of_nonneg _ hnonneg, List.drop_of_length_le (by omega)] at hfix
    exact absurd (List.prefix_nil.mp hfix) hne

theorem consumes_filter {l : Lexeme} (h : l.Consumes) (keep : Cursor → Span → Bool) :
    Consumes fun c => (l c).filter (keep c) := by
  intro c span hfound
  exact h c span (Option.filter_eq_some_iff.mp hfound).1

end Lexeme

namespace Cursor

/-- Going on in the same source leads from `c` to `d`. -/
def LeadsTo (c d : Cursor) : Prop :=
  d.source = c.source ∧ c.location.offset ≤ d.location.offset

/-- `d` stands further on in the same source, and less is left to read from there. -/
structure Precedes (c d : Cursor) : Prop where
  source : d.source = c.source
  offset : c.location.offset < d.location.offset
  remaining : d.remaining < c.remaining

variable {c d e : Cursor}

theorem LeadsTo.refl (c : Cursor) : c.LeadsTo c :=
  ⟨rfl, Int.le_refl _⟩

theorem LeadsTo.trans (h : c.LeadsTo d) (h' : d.LeadsTo e) : c.LeadsTo e :=
  ⟨h'.1.trans h.1, Int.le_trans h.2 h'.2⟩

theorem LeadsTo.remaining_le (h : c.LeadsTo d) : d.remaining ≤ c.remaining := by
  obtain ⟨hsource, hoffset⟩ := h
  rw [remaining, remaining, hsource]
  omega

theorem LeadsTo.precedes (h : c.LeadsTo d) (hlt : d.remaining < c.remaining) : c.Precedes d where
  source := h.1
  offset := by
    rw [remaining, remaining, h.1] at hlt
    omega
  remaining := hlt

theorem LeadsTo.trans_precedes (h : c.LeadsTo d) (h' : d.Precedes e) : c.Precedes e :=
  (h.trans ⟨h'.source, Int.le_of_lt h'.offset⟩).precedes
    (Nat.lt_of_lt_of_le h'.remaining h.remaining_le)

theorem Precedes.trans_leadsTo (h : c.Precedes d) (h' : d.LeadsTo e) : c.Precedes e :=
  LeadsTo.precedes ⟨h'.1.trans h.source, Int.le_trans (Int.le_of_lt h.offset) h'.2⟩
    (Nat.lt_of_le_of_lt h'.remaining_le h.remaining)

theorem Precedes.leadsTo (h : c.Precedes d) : c.LeadsTo d :=
  ⟨h.source, Int.le_of_lt h.offset⟩

end Cursor

namespace Rule

variable {α β σ : Type}

/-- A rule stays in its source and never goes back. -/
def Forward (r : Rule α) : Prop :=
  ∀ c, (r c).2.source = c.source ∧ c.location.offset ≤ (r c).2.location.offset

/-- Where the rule matches, less is left to read. -/
def Advances (r : Rule α) : Prop :=
  ∀ c a c', r c = (.matched a, c') → c'.remaining < c.remaining

/-- Two rules do the same where fewer than `n` characters are left. -/
def AgreeBelow (n : Nat) (r s : Rule α) : Prop :=
  ∀ c, c.remaining < n → r c = s c

/-- A kind of rules told from what a rule does at each cursor. -/
structure Local (P : Rule α → Prop) : Prop where
  never : P never
  pointwise : ∀ r, (∀ c, ∃ s, P s ∧ s c = r c) → P r

/-- A step that stays among the rules of a kind and calls the rule itself only where less is left to
read. -/
structure Guarded (P : Rule α → Prop) (step : (σ → Rule α) → σ → Rule α) : Prop where
  keeps : ∀ f, (∀ s, P (f s)) → ∀ s, P (step f s)
  agree : ∀ f g n, (∀ s, P (f s)) → (∀ s, P (g s)) →
    (∀ s, AgreeBelow n (f s) (g s)) → ∀ s, AgreeBelow (n + 1) (step f s) (step g s)

/-- At `c`, what is done with a rule ends, whatever this rule does, or goes on with a call of it, as
its last act, beyond `start`. -/
def Turns (start : Cursor) (body : (σ → Rule α) → Rule α) (c : Cursor) : Prop :=
  (∃ result, start.LeadsTo result.2 ∧ ∀ again, body again c = result) ∨
    ∃ t d, start.Precedes d ∧ ∀ again, body again c = again t d

/-- The step of a loop. Each time round, it ends the loop or goes on with it further on. -/
def Loops (step : (σ → Rule α) → σ → Rule α) : Prop :=
  ∀ s c, Turns c (step · s) c

section Forward

variable {r s : Rule α} {f : α → Rule β}

theorem Forward.leadsTo (h : Forward r) {c d : Cursor} {o : Outcome α} (hrun : r c = (o, d)) :
    c.LeadsTo d := by
  have hleads := h c
  rw [hrun] at hleads
  exact hleads

theorem Forward.remaining_le (h : Forward r) (c : Cursor) : (r c).2.remaining ≤ c.remaining :=
  Cursor.LeadsTo.remaining_le (h c)

theorem offset_le_skipBlank (c : Cursor) : c.location.offset ≤ c.skipBlank.location.offset := by
  rw [Cursor.skipBlank]
  change _ ≤ (c.location.walk _).offset
  rw [Location.offset_walk]
  omega

theorem forward_pure (a : α) : Forward (pure a : Rule α) :=
  fun _ => ⟨rfl, Int.le_refl _⟩

theorem forward_never : Forward (never : Rule α) :=
  fun _ => ⟨rfl, Int.le_refl _⟩

theorem forward_fail (e : Expectation) : Forward (fail e : Rule α) :=
  fun c => ⟨rfl, offset_le_skipBlank c⟩

theorem forward_sees (l : Lexeme) : Forward (sees l) :=
  fun c => ⟨rfl, offset_le_skipBlank c⟩

theorem forward_hasMore : Forward hasMore :=
  fun c => ⟨rfl, offset_le_skipBlank c⟩

theorem forward_lexeme {l : Lexeme} (h : l.Consumes) : Forward (lexeme l) := by
  intro c
  have hskip := offset_le_skipBlank c
  rw [lexeme, Cursor.takeLexeme]
  cases hfound : l c.skipBlank with
  | none => exact ⟨rfl, hskip⟩
  | some span => exact ⟨rfl, Int.le_trans hskip (Int.le_of_lt (h _ _ hfound).2)⟩

theorem forward_bind (hr : Forward r) (hf : ∀ a, Forward (f a)) : Forward (r >>= f) := by
  intro c
  change (Rule.bind r f c).2.source = _ ∧ _ ≤ (Rule.bind r f c).2.location.offset
  have hfirst := hr c
  rw [Rule.bind]
  rcases hrc : r c with ⟨a | - | p, c₁⟩ <;> rw [hrc] at hfirst
  · have hthen := hf a c₁
    exact ⟨hthen.1.trans hfirst.1, Int.le_trans hfirst.2 hthen.2⟩
  · exact hfirst
  · exact hfirst

theorem forward_map (hr : Forward r) (g : α → β) : Forward (g <$> r) :=
  forward_bind hr fun a => forward_pure (g a)

theorem forward_orElse (hr : Forward r) (hs : Forward s) : Forward (r <|> s) := by
  intro c
  change (Rule.orElse r (fun _ => s) c).2.source = _ ∧
    _ ≤ (Rule.orElse r (fun _ => s) c).2.location.offset
  have hfirst := hr c
  rw [Rule.orElse]
  rcases hrc : r c with ⟨a | - | p, c₁⟩ <;> rw [hrc] at hfirst
  · exact hfirst
  · have hthen := hs c₁
    exact ⟨hthen.1.trans hfirst.1, Int.le_trans hfirst.2 hthen.2⟩
  · exact hfirst

theorem forward_required (hr : Forward r) (e : Expectation) : Forward (required r e) :=
  forward_orElse hr (forward_fail e)

theorem forward_optional (hr : Forward r) : Forward (optional r) :=
  forward_orElse (forward_map hr some) (forward_pure none)

theorem forward_ite {b : Bool} (hr : Forward r) (hs : Forward s) :
    Forward (if b then r else s) := by
  cases b with
  | false => exact hs
  | true => exact hr

end Forward

section Advances

variable {r s : Rule α} {f : α → Rule β}

theorem advances_lexeme {l : Lexeme} (h : l.Consumes) : Advances (lexeme l) := by
  intro c t c' hmatch
  obtain ⟨span, hfound, -, rfl⟩ := lexeme_eq_matched.mp hmatch
  have hskip := offset_le_skipBlank c
  obtain ⟨hlt, hstop⟩ := h _ _ hfound
  change (c.source.length - span.stop.offset).toNat < (c.source.length - c.location.offset).toNat
  change c.skipBlank.location.offset < c.source.length at hlt
  omega

theorem Advances.precedes (h : Advances r) (hr : Forward r) {c d : Cursor} {a : α}
    (hmatch : r c = (.matched a, d)) : c.Precedes d :=
  (hr.leadsTo hmatch).precedes (h c a d hmatch)

theorem precedes_of_lexeme {l : Lexeme} (hl : l.Consumes) {c d : Cursor} {t : Token}
    (h : lexeme l c = (.matched t, d)) : c.Precedes d :=
  (advances_lexeme hl).precedes (forward_lexeme hl) h

theorem advances_bind (hr : Advances r) (hf : ∀ a, Forward (f a)) : Advances (r >>= f) := by
  intro c b c' hmatch
  obtain ⟨a, c₁, hfirst, hthen⟩ := bind_eq_matched.mp hmatch
  have hle := (hf a).remaining_le c₁
  rw [hthen] at hle
  exact Nat.lt_of_le_of_lt hle (hr c a c₁ hfirst)

theorem advances_map (hr : Advances r) (g : α → β) : Advances (g <$> r) :=
  advances_bind hr fun a => forward_pure (g a)

theorem advances_orElse (hr : Advances r) (hforward : Forward r) (hs : Advances s) :
    Advances (r <|> s) := by
  intro c a c' hmatch
  rcases orElse_eq_matched.mp hmatch with hfirst | ⟨c₁, hnone, hthen⟩
  · exact hr c a c' hfirst
  · have hle := hforward.remaining_le c
    rw [hnone] at hle
    exact Nat.lt_of_lt_of_le (hs c₁ a c' hthen) hle

theorem advances_required (hr : Advances r) (e : Expectation) : Advances (required r e) :=
  fun c a c' hmatch => hr c a c' (required_eq_matched.mp hmatch)

end Advances

section Agreement

variable {c : Cursor} {n m : Nat} {r s r' s' : Rule α} {f g : α → Rule β}

/-- What follows has to agree only where a match leads. -/
theorem bind_agree (h : r c = s c) (hf : ∀ a d, r c = (.matched a, d) → f a d = g a d) :
    (r >>= f) c = (s >>= g) c := by
  change Rule.bind r f c = Rule.bind s g c
  rw [Rule.bind, Rule.bind, ← h]
  rcases hrun : r c with ⟨a | - | p, d⟩
  · exact hf a d hrun
  · rfl
  · rfl

theorem map_agree (h : r c = s c) (k : α → β) : (k <$> r) c = (k <$> s) c :=
  bind_agree h fun _ _ _ => rfl

/-- The second of two alternatives has to agree only where the first one does not apply. -/
theorem orElse_agree (h : r c = s c) (h' : ∀ d, r c = (.noMatch, d) → r' d = s' d) :
    (r <|> r') c = (s <|> s') c := by
  change Rule.orElse r (fun _ => r') c = Rule.orElse s (fun _ => s') c
  rw [Rule.orElse, Rule.orElse, ← h]
  rcases hrun : r c with ⟨a | - | p, d⟩
  · rfl
  · exact h' d hrun
  · rfl

theorem required_agree (h : r c = s c) (e : Expectation) : required r e c = required s e c :=
  orElse_agree h fun _ _ => rfl

theorem optional_agree (h : r c = s c) : optional r c = optional s c :=
  orElse_agree (map_agree h some) fun _ _ => rfl

theorem AgreeBelow.refl (n : Nat) (r : Rule α) : AgreeBelow n r r :=
  fun _ _ => rfl

theorem AgreeBelow.mono (h : AgreeBelow n r s) (hle : m ≤ n) : AgreeBelow m r s :=
  fun c hc => h c (Nat.lt_of_lt_of_le hc hle)

theorem AgreeBelow.bind (h : AgreeBelow n r s) (hforward : Forward r)
    (hf : ∀ a, AgreeBelow n (f a) (g a)) : AgreeBelow n (r >>= f) (s >>= g) := fun c hc =>
  bind_agree (h c hc) fun a d hd =>
    hf a d (Nat.lt_of_le_of_lt (hforward.leadsTo hd).remaining_le hc)

/-- After a match less is left, so that what follows has to agree only there. -/
theorem AgreeBelow.bind_advance (h : AgreeBelow (n + 1) r s) (hadvances : Advances r)
    (hf : ∀ a, AgreeBelow n (f a) (g a)) : AgreeBelow (n + 1) (r >>= f) (s >>= g) := fun c hc =>
  bind_agree (h c hc) fun a d hd =>
    hf a d (Nat.lt_of_lt_of_le (hadvances c a d hd) (Nat.le_of_lt_succ hc))

theorem AgreeBelow.map (h : AgreeBelow n r s) (k : α → β) : AgreeBelow n (k <$> r) (k <$> s) :=
  fun c hc => map_agree (h c hc) k

theorem AgreeBelow.orElse (h : AgreeBelow n r s) (hforward : Forward r)
    (h' : AgreeBelow n r' s') : AgreeBelow n (r <|> r') (s <|> s') := fun c hc =>
  orElse_agree (h c hc) fun d hd =>
    h' d (Nat.lt_of_le_of_lt (hforward.leadsTo hd).remaining_le hc)

theorem AgreeBelow.required (h : AgreeBelow n r s) (e : Expectation) :
    AgreeBelow n (required r e) (required s e) :=
  fun c hc => required_agree (h c hc) e

theorem AgreeBelow.optional (h : AgreeBelow n r s) : AgreeBelow n (optional r) (optional s) :=
  fun c hc => optional_agree (h c hc)

theorem AgreeBelow.ite {b : Bool} (h : AgreeBelow n r s) (h' : AgreeBelow n r' s') :
    AgreeBelow n (if b then r else r') (if b then s else s') := by
  cases b with
  | false => exact h'
  | true => exact h

end Agreement

section Fix

variable {P : Rule α → Prop} {step step' : (σ → Rule α) → σ → Rule α}

theorem local_forward : Local (Forward : Rule α → Prop) where
  never := forward_never
  pointwise r h c := by
    obtain ⟨s, hs, hc⟩ := h c
    rw [← hc]
    exact hs c

theorem local_advances : Local fun r : Rule α => Forward r ∧ Advances r where
  never := ⟨forward_never, fun _ _ _ h => nomatch h⟩
  pointwise r h := by
    refine ⟨local_forward.pointwise r fun c => ?_, fun c a c' hmatch => ?_⟩
    · obtain ⟨s, hs, hc⟩ := h c
      exact ⟨s, hs.1, hc⟩
    · obtain ⟨s, hs, hc⟩ := h c
      exact hs.2 c a c' (hc.trans hmatch)

theorem keeps_unroll (hP : Local P) (h : Guarded P step) (n : Nat) (s : σ) :
    P (unroll step n s) := by
  induction n generalizing s with
  | zero => exact hP.never
  | succ n ih => exact h.keeps _ ih s

theorem keeps_fix (hP : Local P) (h : Guarded P step) (s : σ) : P (fix step s) :=
  hP.pointwise _ fun c => ⟨_, keeps_unroll hP h (c.remaining + 1) s, rfl⟩

theorem unroll_eq_unroll (hP : Local P) (h : Guarded P step) {n m : Nat} (s : σ) {c : Cursor}
    (hn : c.remaining < n) (hm : c.remaining < m) : unroll step n s c = unroll step m s c := by
  induction n generalizing m s c with
  | zero => omega
  | succ n ih =>
      cases m with
      | zero => omega
      | succ m =>
          apply h.agree _ _ c.remaining (keeps_unroll hP h n) (keeps_unroll hP h m)
          · intro t c' hc'
            exact ih t (by omega) (by omega)
          · omega

theorem fix_eq (hP : Local P) (h : Guarded P step) (s : σ) : fix step s = step (fix step) s := by
  funext c
  apply h.agree _ _ c.remaining (keeps_unroll hP h _) (keeps_fix hP h)
  · intro t c' hc'
    exact unroll_eq_unroll hP h t hc' (by omega)
  · omega

/-- Rules that call themselves agree where their steps do, if the places they come to are told. -/
theorem fix_agree {P : σ → Cursor → Prop}
    (hstep : ∀ f f', (∀ t d, P t d → f t d = f' t d) → ∀ t d, P t d → step f t d = step' f' t d)
    {t : σ} {c : Cursor} (h : P t c) : fix step t c = fix step' t c := by
  have hunroll : ∀ n t d, P t d → unroll step n t d = unroll step' n t d := by
    intro n
    induction n with
    | zero => exact fun _ _ _ => rfl
    | succ n ih => exact hstep _ _ ih
  exact hunroll (c.remaining + 1) t c h

/-- Steps that agree have rules that agree. -/
theorem AgreeBelow.fix {n : Nat}
    (hstep : ∀ f g, (∀ s, AgreeBelow n (f s) (g s)) → ∀ s, AgreeBelow n (step f s) (step' g s))
    (s : σ) : AgreeBelow n (fix step s) (fix step' s) := fun _ hc =>
  fix_agree (P := fun _ d => d.remaining < n) hstep hc

end Fix

section Loops

variable {step : (σ → Rule α) → σ → Rule α}

theorem turns_pure {start c : Cursor} (hc : start.LeadsTo c) (a : α) :
    Turns start (fun _ : σ → Rule α => pure a) c :=
  .inl ⟨_, hc, fun _ => rfl⟩

theorem turns_again {start c d : Cursor} (hc : start.LeadsTo c) (hd : c.Precedes d) (t : σ) :
    Turns start (fun again : σ → Rule α => again t) d :=
  .inr ⟨t, d, hc.trans_precedes hd, fun _ => rfl⟩

/-- What is read before a loop goes on has no part in it. -/
theorem turns_bind {start c : Cursor} {r : Rule β} {f : (σ → Rule α) → β → Rule α}
    (hc : start.LeadsTo c) (hr : Forward r)
    (h : ∀ b d, r c = (.matched b, d) → start.LeadsTo d → Turns start (f · b) d) :
    Turns start (fun again => r >>= f again) c := by
  have hbind : ∀ again, (r >>= f again) c = Rule.bind r (f again) c := fun _ => rfl
  simp only [Turns, hbind, Rule.bind]
  rcases hrun : r c with ⟨b | - | p, d⟩
  · exact h b d hrun (hc.trans (hr.leadsTo hrun))
  · exact .inl ⟨_, hc.trans (hr.leadsTo hrun), fun _ => rfl⟩
  · exact .inl ⟨_, hc.trans (hr.leadsTo hrun), fun _ => rfl⟩

theorem Loops.agree (h : Loops step) {n : Nat} {f g : σ → Rule α}
    (hfg : ∀ s, AgreeBelow n (f s) (g s)) (s : σ) : AgreeBelow (n + 1) (step f s) (step g s) := by
  intro c hc
  rcases h s c with ⟨result, -, hend⟩ | ⟨t, d, hd, hagain⟩
  · exact (hend f).trans (hend g).symm
  · have hlt := hd.remaining
    exact ((hagain f).trans (hfg t d (by omega))).trans (hagain g).symm

theorem Loops.guarded (h : Loops step) : Guarded Forward step where
  keeps f hf s c := by
    rcases h s c with ⟨result, hleads, hend⟩ | ⟨t, d, hd, hagain⟩
    · have hresult : step f s c = result := hend f
      rw [hresult]
      exact hleads
    · have hcall : step f s c = f t d := hagain f
      rw [hcall]
      exact hd.leadsTo.trans (hf t d)
  agree _ _ _ _ _ hfg s := h.agree hfg s

theorem Loops.forward_fix (h : Loops step) (s : σ) : Forward (Rule.fix step s) :=
  keeps_fix local_forward h.guarded s

theorem Loops.fix_eq (h : Loops step) (s : σ) : Rule.fix step s = step (Rule.fix step) s :=
  Rule.fix_eq local_forward h.guarded s

/-- A loop is the one rule that its step makes of itself. -/
theorem Loops.eq_fix_iff (h : Loops step) (f : σ → Rule α) :
    (∀ s, f s = step f s) ↔ f = Rule.fix step := by
  constructor
  · intro hf
    have hagree : ∀ n s, AgreeBelow n (f s) (Rule.fix step s) := by
      intro n
      induction n with
      | zero => exact fun _ _ hc => absurd hc (Nat.not_lt_zero _)
      | succ n ih =>
          intro s
          rw [hf, h.fix_eq]
          exact h.agree ih s
    funext s c
    exact hagree (c.remaining + 1) s c (Nat.lt_succ_self _)
  · rintro rfl
    exact h.fix_eq

end Loops

end Rule

end KestrelCompiler
