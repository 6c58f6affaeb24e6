import KestrelCompiler.Proofs.Grammar.Commitment
import KestrelCompiler.Proofs.StringLiteral.Decoding

/-!
Soundness. Where a rule matches, the grammar derives what it gives back from the place where it
started to the place where it stopped.
-/

namespace KestrelCompiler.Rule

open KestrelCompiler.Derivation Position

variable {α σ : Type}

/-- What the rule matches is derived. -/
def Sound (r : Rule α) (derives : Position → α → List Span → Position → Prop) : Prop :=
  ∀ c c' p x, c.At p → r c = (.matched x, c') → ∃ spans q, derives p x spans q ∧ c'.At q

theorem sound_fix {step : (σ → Rule α) → σ → Rule α}
    {derives : σ → Position → α → List Span → Position → Prop}
    (h : ∀ f, (∀ s, Sound (f s) (derives s)) → ∀ s, Sound (step f s) (derives s)) (s : σ) :
    Sound (fix step s) (derives s) := by
  have hunroll : ∀ n s, Sound (unroll step n s) (derives s) := by
    intro n
    induction n with
    | zero => exact fun _ _ _ _ _ _ hmatch => nomatch hmatch
    | succ n ih => exact h _ ih
  exact fun c => hunroll (c.remaining + 1) s c

/-- The rule where fewer than `n` characters are left. -/
def below (n : Nat) (r : Rule α) : Rule α := fun c =>
  if c.remaining < n then r c else never c

theorem agreeBelow_below (n : Nat) (r : Rule α) : AgreeBelow n r (below n r) :=
  fun _ hc => (if_pos hc).symm

/-- The same for rules whose steps ask more of the rule itself; it may be cut off where the step
does not reach. -/
theorem sound_fix_of_steady {P : Rule α → Prop} {step : (σ → Rule α) → σ → Rule α}
    {derives : Position → α → List Span → Position → Prop} (hP : Local P)
    (hguarded : Guarded P step) (hsteady : ∀ s, Steady (fix step s))
    (h : ∀ f, (∀ s, P (f s)) → (∀ s, Steady (f s)) → (∀ s, Sound (f s) derives) →
      ∀ s, Sound (step f s) derives) (s : σ) : Sound (fix step s) derives := by
  have hbelow : ∀ n s, Sound (below n (fix step s)) derives := by
    intro n
    induction n with
    | zero => exact fun s c c' p x hc hmatch => nomatch hmatch
    | succ n ih =>
        have hkeeps : ∀ s, P (below n (fix step s)) := by
          refine fun s => hP.pointwise _ fun c => ?_
          rw [below]
          split
          · exact ⟨_, keeps_fix hP hguarded s, rfl⟩
          · exact ⟨_, hP.never, rfl⟩
        have hcut : ∀ s, Steady (below n (fix step s)) := by
          intro s c c' p hc hmatch
          rw [below] at hmatch
          split at hmatch
          · exact hsteady s c c' p hc hmatch
          · cases hmatch
            exact hc
        intro s c c' p x hc hmatch
        rw [below] at hmatch
        split at hmatch
        · next hlt =>
            have hagree := hguarded.agree _ _ n (keeps_fix hP hguarded) hkeeps
              (fun s => agreeBelow_below n _) s c hlt
            rw [fix_eq hP hguarded, hagree] at hmatch
            exact h _ hkeeps hcut ih s c c' p x hc hmatch
        · cases hmatch
  intro c c' p x hc hmatch
  refine hbelow (c.remaining + 1) s c c' p x hc ?_
  rwa [below, if_pos (Nat.lt_succ_self _)]

/-- The list is derived as a continuation of what was read before. -/
def Continued (derives : Position → List α → List Span → Position → Prop) (before : List α) :
    Position → List α → List Span → Position → Prop := fun p all spans q =>
  ∃ more, all = before ++ more ∧ derives p more spans q

section Lexemes

variable {c c' : Cursor} {p : Position} {t : Token}

theorem token_sound {text : String} (htext : (Shape.fixed text).Solid) (hc : c.At p)
    (h : token text c = (.matched t, c')) : ∃ q, Reads (.fixed text) p t q ∧ c'.At q :=
  lexeme_sound (Lexeme.finds_literal htext.ne_nil) htext hc h

theorem identifier_sound (hc : c.At p) (h : lexeme .identifier c = (.matched t, c')) :
    ∃ q, Reads .identifier p t q ∧ c'.At q :=
  lexeme_sound Lexeme.finds_identifier Shape.solid_identifier hc h

theorem keyword_sound {text : String} (htext : (Shape.fixed text).Solid) (hc : c.At p)
    (h : lexeme (.keyword text) c = (.matched t, c')) :
    ∃ q, Reads (.keyword text) p t q ∧ c'.At q :=
  lexeme_sound (Lexeme.finds_keyword htext.ne_nil) htext.keyword hc h

theorem stringLiteral_sound (hc : c.At p) (h : stringLiteral c = (.matched t, c')) :
    ∃ q, ReadsString p t q ∧ c'.At q := by
  obtain ⟨pieces, after, htext⟩ := StringLiteral.exists_pieces_of_stringLiteral hc.1 h
  rw [StringLiteral.stringLiteral_literal hc.1 htext, hc.location_skipBlank] at h
  cases h
  rw [hc.rest_skipBlank] at htext
  refine ⟨⟨p.skip.location.walk (StringLiteral.Piece.literal pieces), after⟩, ⟨pieces, ?_, rfl⟩,
    hc.moveTo_walk htext rfl⟩
  exact (stands_iff rfl (by decide)).mpr ⟨htext, rfl, rfl⟩

theorem continues_sound {closing : String} {more : Bool} (hc : c.At p)
    (h : continues closing c = (.matched more, c')) : c'.At p := by
  obtain ⟨_, _, h₁, h⟩ := bind_eq_matched.mp h
  obtain ⟨_, _, h₂, h⟩ := bind_eq_matched.mp h
  cases h₁
  cases h₂
  cases h
  exact hc.skipBlank.skipBlank

end Lexemes

theorem sound_stars (inner : TypeExpr) : Sound (stars inner) (Stars inner) := by
  refine sound_fix (fun f h inner c c' p type hc hmatch => ?_) inner
  obtain ⟨star, c₁, hrun, hmatch⟩ := bind_eq_matched.mp hmatch
  cases star with
  | none =>
      cases hmatch
      exact ⟨[], p, .none, steady_token "*" c _ p hc (optional_eq_none.mp hrun)⟩
  | some star =>
      obtain ⟨p₁, hreads, hc₁⟩ := token_sound Shape.solid_star hc (optional_eq_some.mp hrun)
      obtain ⟨spans, q, hstars, hq⟩ := h _ c₁ c' p₁ type hc₁ hmatch
      exact ⟨_, q, .star hreads hstars, hq⟩

section Types

variable {type : Rule TypeExpr}

theorem sound_typesOf (htype : Sound type TypeAt) (types : List TypeExpr) :
    Sound (typesOf type types) (Continued TypesAt types) := by
  refine sound_fix (fun f h types c c' p all hc hmatch => ?_) types
  obtain ⟨more, c₁, hrun, hmatch⟩ := bind_eq_matched.mp hmatch
  have hc₁ := continues_sound hc hrun
  cases more with
  | false =>
      cases hmatch
      exact ⟨[], p, ⟨[], (List.append_nil _).symm, .none⟩, hc₁⟩
  | true =>
      obtain ⟨next, c₂, hrun, hmatch⟩ := bind_eq_matched.mp hmatch
      obtain ⟨spans, p₂, hderives, hc₂⟩ :=
        htype c₁ c₂ p next hc₁ (required_eq_matched.mp hrun)
      obtain ⟨comma, c₃, hrun, hmatch⟩ := bind_eq_matched.mp hmatch
      cases comma with
      | none =>
          cases hmatch
          exact ⟨spans, p₂, ⟨[next], rfl, .last hderives⟩,
            steady_token "," c₂ _ p₂ hc₂ (optional_eq_none.mp hrun)⟩
      | some comma =>
          obtain ⟨p₃, hreads, hc₃⟩ :=
            token_sound Shape.solid_comma hc₂ (optional_eq_some.mp hrun)
          obtain ⟨spans', q, ⟨rest, rfl, hrest⟩, hq⟩ := h _ c₃ c' p₃ all hc₃ hmatch
          exact ⟨_, q, ⟨next :: rest, by simp, .more hderives hreads hrest⟩, hq⟩

theorem sound_signatureOf (htype : Sound type TypeAt) (hsteady : Steady type) :
    Sound (signatureOf type) SignatureAt := by
  intro c c' p s hc hmatch
  obtain ⟨left, c₁, hrun, hmatch⟩ := bind_eq_matched.mp hmatch
  obtain ⟨p₁, hleft, hc₁⟩ := token_sound Shape.solid_leftParen hc hrun
  obtain ⟨args, c₂, hrun, hmatch⟩ := bind_eq_matched.mp hmatch
  obtain ⟨spans, p₂, ⟨_, rfl, hargs⟩, hc₂⟩ := sound_typesOf htype [] c₁ c₂ p₁ args hc₁ hrun
  obtain ⟨right, c₃, hrun, hmatch⟩ := bind_eq_matched.mp hmatch
  obtain ⟨p₃, hright, hc₃⟩ :=
    token_sound Shape.solid_rightParen hc₂ (required_eq_matched.mp hrun)
  obtain ⟨ret, c₄, hrun, hmatch⟩ := bind_eq_matched.mp hmatch
  cases hmatch
  cases ret with
  | none =>
      have hc₄ := hsteady c₃ c' p₃ hc₃ (optional_eq_none.mp hrun)
      exact ⟨_, p₃, .mk hleft hargs hright .none, hc₄⟩
  | some ret =>
      obtain ⟨spans', q, hret, hq⟩ := htype c₃ c' p₃ ret hc₃ (optional_eq_some.mp hrun)
      exact ⟨_, q, .mk hleft hargs hright (.some hret), hq⟩

end Types

theorem sound_namedType : Sound namedType TypeAt := by
  intro c c' p t hc hmatch
  obtain ⟨name, c₁, hrun, hmatch⟩ := bind_eq_matched.mp hmatch
  obtain ⟨p₁, hreads, hc₁⟩ := identifier_sound hc hrun
  obtain ⟨spans, q, hstars, hq⟩ := sound_stars _ c₁ c' p₁ t hc₁ hmatch
  exact ⟨_, q, .named hreads hstars, hq⟩

theorem sound_type : Sound type TypeAt := by
  refine sound_fix_of_steady local_forward guarded_typeStep (fun _ => steady_type) ?_ ()
  intro f hforward hsteady hsound s c c' p t hc hmatch
  rcases orElse_eq_matched.mp hmatch with hmatch | ⟨c₁, hother, hmatch⟩
  · obtain ⟨signature, hread, rfl⟩ := map_eq_matched.mp hmatch
    obtain ⟨spans, q, hderives, hq⟩ :=
      sound_signatureOf (hsound s) (hsteady s) c c' p signature hc hread
    exact ⟨spans, q, .function hderives, hq⟩
  · have hc₁ := steady_map (steady_signatureOf (hforward s)) _ c c₁ p hc hother
    exact sound_namedType c₁ c' p t hc₁ hmatch

theorem sound_signature : Sound signature SignatureAt :=
  sound_signatureOf sound_type steady_type

theorem sound_primary : Sound primary PrimaryAt := by
  intro c c' p e hc hmatch
  rcases orElse_eq_matched.mp hmatch with hmatch | ⟨c₁, hother, hmatch⟩
  · obtain ⟨t, hread, rfl⟩ := map_eq_matched.mp hmatch
    obtain ⟨q, hreads, hq⟩ := lexeme_sound Lexeme.finds_numeral Shape.solid_number hc hread
    exact ⟨_, q, .number hreads, hq⟩
  · obtain ⟨hc₁, hnumber⟩ := lexeme_noMatch Lexeme.finds_numeral Shape.solid_number hc
      (map_eq_noMatch.mp hother)
    rcases orElse_eq_matched.mp hmatch with hmatch | ⟨c₂, hother, hmatch⟩
    · obtain ⟨t, hread, rfl⟩ := map_eq_matched.mp hmatch
      obtain ⟨q, hreads, hq⟩ := stringLiteral_sound hc₁ hread
      exact ⟨_, q, .string hreads, hq⟩
    · have hc₂ := steady_map steady_stringLiteral _ c₁ c₂ p hc₁ hother
      obtain ⟨t, hread, rfl⟩ := map_eq_matched.mp hmatch
      obtain ⟨q, hreads, hq⟩ := identifier_sound hc₂ hread
      exact ⟨_, q, .name (hreads.name_of_identifier hnumber), hq⟩

theorem operator_sound {κ : Type} {operators : List (String × κ)} {c c' : Cursor} {p : Position}
    {t : Token} {kind : κ} (hsolid : ∀ entry ∈ operators, (Shape.fixed entry.1).Solid)
    (hc : c.At p) (hmatch : operator operators c = (.matched (t, kind), c')) :
    ∃ text q, (text, kind) ∈ operators ∧ Reads (.fixed text) p t q ∧ c'.At q := by
  induction operators generalizing c with
  | nil => cases hmatch
  | cons entry rest ih =>
      rcases orElse_eq_matched.mp hmatch with hmatch | ⟨c₁, hother, hmatch⟩
      · obtain ⟨t', hread, hentry⟩ := map_eq_matched.mp hmatch
        cases hentry
        obtain ⟨q, hreads, hq⟩ := token_sound (hsolid entry List.mem_cons_self) hc hread
        exact ⟨entry.1, q, List.mem_cons_self, hreads, hq⟩
      · have hc₁ := steady_map (steady_token _) _ c c₁ p hc hother
        obtain ⟨text, q, hmem, hreads, hq⟩ :=
          ih (fun e he => hsolid e (List.mem_cons_of_mem entry he)) hc₁ hmatch
        exact ⟨text, q, List.mem_cons_of_mem entry hmem, hreads, hq⟩

section Operators

variable {operand : Rule Expr} {derives : Position → Expr → List Span → Position → Prop}
  {level : PrecedenceLevel Operation}

theorem sound_operandsOf (hsolid : ∀ entry ∈ level.operators, (Shape.fixed entry.1).Solid)
    (hoperand : Sound operand derives) (left : Expr) :
    Sound (operandsOf .binary operand level left)
      (OperandsAt level.operators derives left) := by
  refine sound_fix (fun f h left c c' p e hc hmatch => ?_) left
  obtain ⟨op, c₁, hrun, hmatch⟩ := bind_eq_matched.mp hmatch
  cases op with
  | none =>
      cases hmatch
      exact ⟨[], p, .none, steady_operator _ c _ p hc (optional_eq_none.mp hrun)⟩
  | some op =>
      obtain ⟨text, p₁, hmem, hreads, hc₁⟩ := operator_sound hsolid hc (optional_eq_some.mp hrun)
      obtain ⟨right, c₂, hrun, hmatch⟩ := bind_eq_matched.mp hmatch
      obtain ⟨spans, p₂, hright, hc₂⟩ :=
        hoperand c₁ c₂ p₁ right hc₁ (required_eq_matched.mp hrun)
      obtain ⟨spans', q, hmore, hq⟩ := h _ c₂ c' p₂ e hc₂ hmatch
      exact ⟨_, q, .more hmem hreads hright hmore, hq⟩

theorem sound_climb {tighter : List (PrecedenceLevel Operation)}
    (hsolid : ∀ entry ∈ level.operators, (Shape.fixed entry.1).Solid)
    (htighter : Sound (climb .binary operand tighter) derives) :
    Sound (climb .binary operand (level :: tighter)) (JoinedAt level.operators derives) := by
  intro c c' p e hc hmatch
  obtain ⟨first, c₁, hrun, hmatch⟩ := bind_eq_matched.mp hmatch
  obtain ⟨spans, p₁, hfirst, hc₁⟩ := htighter c c₁ p first hc hrun
  obtain ⟨spans', q, hmore, hq⟩ := sound_operandsOf hsolid htighter first c₁ c' p₁ e hc₁ hmatch
  exact ⟨_, q, .mk hfirst hmore, hq⟩

end Operators

theorem sound_expression : Sound expression ExprAt := by
  refine sound_climb (by simpa [PrecedenceLevel.comparison] using Shape.solid_less) ?_
  exact sound_climb (by simpa [PrecedenceLevel.additive] using
    ⟨Shape.solid_plus, Shape.solid_minus⟩) sound_primary

theorem sound_namesAfter (name : String) (names : List Token) :
    Sound (namesAfter name names) (Continued NamesAt names) := by
  refine sound_fix (fun f h names c c' p all hc hmatch => ?_) names
  obtain ⟨next, c₁, hrun, hmatch⟩ := bind_eq_matched.mp hmatch
  obtain ⟨p₁, hnext, hc₁⟩ := identifier_sound hc (required_eq_matched.mp hrun)
  obtain ⟨comma, c₂, hrun, hmatch⟩ := bind_eq_matched.mp hmatch
  cases comma with
  | none =>
      cases hmatch
      exact ⟨_, p₁, ⟨[next], rfl, .last hnext⟩,
        steady_token "," c₁ _ p₁ hc₁ (optional_eq_none.mp hrun)⟩
  | some comma =>
      obtain ⟨p₂, hcomma, hc₂⟩ := token_sound Shape.solid_comma hc₁ (optional_eq_some.mp hrun)
      obtain ⟨spans, q, ⟨rest, rfl, hrest⟩, hq⟩ := h _ c₂ c' p₂ all hc₂ hmatch
      exact ⟨_, q, ⟨next :: rest, by simp, .more hnext hcomma hrest⟩, hq⟩

theorem sound_directive : Sound directive StatementAt := by
  intro c c' p s hc hmatch
  obtain ⟨name, c₁, hrun, hmatch⟩ := bind_eq_matched.mp hmatch
  obtain ⟨p₁, hname, hc₁⟩ :=
    lexeme_sound Lexeme.finds_directiveName Shape.solid_directiveName hc hrun
  obtain ⟨bang, c₂, hrun, hmatch⟩ := bind_eq_matched.mp hmatch
  obtain ⟨p₂, hbang, hc₂⟩ := token_sound Shape.solid_bang hc₁ hrun
  obtain ⟨args, c₃, hrun, hmatch⟩ := bind_eq_matched.mp hmatch
  obtain ⟨spans, q, ⟨_, rfl, hargs⟩, hq⟩ := sound_namesAfter name.text [] c₂ c₃ p₂ args hc₂ hrun
  cases hmatch
  exact ⟨_, q, .directive hname hbang hargs, hq⟩

theorem sound_returned : Sound returned StatementAt := by
  intro c c' p s hc hmatch
  obtain ⟨marker, c₁, hrun, hmatch⟩ := bind_eq_matched.mp hmatch
  obtain ⟨p₁, hmarker, hc₁⟩ := token_sound Shape.solid_colon hc hrun
  obtain ⟨value, c₂, hrun, hmatch⟩ := bind_eq_matched.mp hmatch
  obtain ⟨spans, q, hvalue, hq⟩ :=
    sound_expression c₁ c₂ p₁ value hc₁ (required_eq_matched.mp hrun)
  cases hmatch
  exact ⟨_, q, .ret hmarker hvalue, hq⟩

section Blocks

variable {block : Rule Block} {statement : Rule Stmt}

theorem sound_conditionalOf (hblock : Sound block BlockAt) :
    Sound (conditionalOf block) StatementAt := by
  intro c c' p s hc hmatch
  obtain ⟨keyword, c₁, hrun, hmatch⟩ := bind_eq_matched.mp hmatch
  obtain ⟨p₁, hkeyword, hc₁⟩ := keyword_sound Shape.solid_if hc hrun
  obtain ⟨condition, c₂, hrun, hmatch⟩ := bind_eq_matched.mp hmatch
  obtain ⟨spans, p₂, hcondition, hc₂⟩ :=
    sound_expression c₁ c₂ p₁ condition hc₁ (required_eq_matched.mp hrun)
  obtain ⟨yes, c₃, hrun, hmatch⟩ := bind_eq_matched.mp hmatch
  obtain ⟨spans', p₃, hyes, hc₃⟩ := hblock c₂ c₃ p₂ yes hc₂ (required_eq_matched.mp hrun)
  obtain ⟨other, c₄, hrun, hmatch⟩ := bind_eq_matched.mp hmatch
  cases other with
  | none =>
      cases hmatch
      exact ⟨_, p₃, .ifThen hkeyword hcondition hyes,
        steady_lexeme _ c₃ _ p₃ hc₃ (optional_eq_none.mp hrun)⟩
  | some other =>
      obtain ⟨p₄, hother, hc₄⟩ := keyword_sound Shape.solid_else hc₃ (optional_eq_some.mp hrun)
      obtain ⟨no, c₅, hrun, hmatch⟩ := bind_eq_matched.mp hmatch
      obtain ⟨spans'', q, hno, hq⟩ := hblock c₄ c₅ p₄ no hc₄ (required_eq_matched.mp hrun)
      cases hmatch
      exact ⟨_, q, .ifElse hkeyword hcondition hyes hother hno, hq⟩

theorem sound_statementOf (hblock : Sound block BlockAt) (hsteady : Steady block) :
    Sound (statementOf block) StatementAt := by
  intro c c' p s hc hmatch
  rcases orElse_eq_matched.mp hmatch with hmatch | ⟨c₁, hother, hmatch⟩
  · obtain ⟨body, hread, rfl⟩ := map_eq_matched.mp hmatch
    obtain ⟨spans, q, hderives, hq⟩ := hblock c c' p body hc hread
    exact ⟨spans, q, .block hderives, hq⟩
  have hc₁ := steady_map hsteady _ c c₁ p hc hother
  rcases orElse_eq_matched.mp hmatch with hmatch | ⟨c₂, hother, hmatch⟩
  · exact sound_conditionalOf hblock c₁ c' p s hc₁ hmatch
  have hc₂ := steady_conditionalOf block c₁ c₂ p hc₁ hother
  rcases orElse_eq_matched.mp hmatch with hmatch | ⟨c₃, hother, hmatch⟩
  · exact sound_returned c₂ c' p s hc₂ hmatch
  · exact sound_directive c₃ c' p s (steady_returned c₂ c₃ p hc₂ hother) hmatch

theorem sound_statementsOf (hstatement : Sound statement StatementAt) (items : List Stmt) :
    Sound (statementsOf statement items) (Continued StatementsAt items) := by
  refine sound_fix (fun f h items c c' p all hc hmatch => ?_) items
  obtain ⟨more, c₁, hrun, hmatch⟩ := bind_eq_matched.mp hmatch
  have hc₁ := continues_sound hc hrun
  cases more with
  | false =>
      cases hmatch
      exact ⟨[], p, ⟨[], (List.append_nil _).symm, .none⟩, hc₁⟩
  | true =>
      obtain ⟨next, c₂, hrun, hmatch⟩ := bind_eq_matched.mp hmatch
      obtain ⟨spans, p₂, hderives, hc₂⟩ :=
        hstatement c₁ c₂ p next hc₁ (required_eq_matched.mp hrun)
      obtain ⟨spans', q, ⟨rest, rfl, hrest⟩, hq⟩ := h _ c₂ c' p₂ all hc₂ hmatch
      exact ⟨_, q, ⟨next :: rest, by simp, .more hderives hrest⟩, hq⟩

end Blocks

theorem sound_block : Sound block BlockAt := by
  refine sound_fix_of_steady local_advances guarded_blockStep (fun _ => steady_block) ?_ ()
  intro f _ hsteady hsound s c c' p b hc hmatch
  obtain ⟨left, c₁, hrun, hmatch⟩ := bind_eq_matched.mp hmatch
  obtain ⟨p₁, hleft, hc₁⟩ := token_sound Shape.solid_leftBrace hc hrun
  obtain ⟨items, c₂, hrun, hmatch⟩ := bind_eq_matched.mp hmatch
  obtain ⟨spans, p₂, ⟨_, rfl, hitems⟩, hc₂⟩ := sound_statementsOf
    (sound_statementOf (hsound s) (hsteady s)) [] c₁ c₂ p₁ items hc₁ hrun
  obtain ⟨right, c₃, hrun, hmatch⟩ := bind_eq_matched.mp hmatch
  obtain ⟨q, hright, hq⟩ := token_sound Shape.solid_rightBrace hc₂ (required_eq_matched.mp hrun)
  cases hmatch
  exact ⟨_, q, .mk hleft hitems hright, hq⟩

theorem sound_declaration : Sound declaration DeclarationAt := by
  intro c c' p d hc hmatch
  obtain ⟨name, c₁, hrun, hmatch⟩ := bind_eq_matched.mp hmatch
  obtain ⟨p₁, hname, hc₁⟩ := identifier_sound hc hrun
  obtain ⟨opens, c₂, hrun, hmatch⟩ := bind_eq_matched.mp hmatch
  cases hrun
  have hc₂ := hc₁.skipBlank
  split at hmatch
  · obtain ⟨s, c₃, hs, hmatch⟩ := bind_eq_matched.mp hmatch
    obtain ⟨spans, p₃, hs, hc₃⟩ := sound_signature _ c₃ p₁ s hc₂ (required_eq_matched.mp hs)
    obtain ⟨body, c₄, hrun, hmatch⟩ := bind_eq_matched.mp hmatch
    obtain ⟨spans', q, hbody, hq⟩ := sound_block c₃ c₄ p₃ body hc₃ (required_eq_matched.mp hrun)
    cases hmatch
    exact ⟨_, q, .mk hname hs hbody, hq⟩
  · cases hmatch

theorem sound_declarations (decls : List FunctionDecl) :
    Sound (declarations decls) (Continued (fun p ds spans q =>
      DeclarationsAt p ds spans q ∧ q.next? = none) decls) := by
  refine sound_fix (fun f h decls c c' p all hc hmatch => ?_) decls
  obtain ⟨more, c₁, hrun, hmatch⟩ := bind_eq_matched.mp hmatch
  have hc₁ : c₁.At p := by
    cases hrun
    exact hc.skipBlank
  cases more with
  | false =>
      cases hmatch
      have hend : c.skipBlank.atEnd = true := by
        simpa [hasMore_apply] using congrArg Prod.fst hrun
      exact ⟨[], p, ⟨[], (List.append_nil _).symm, .none, (atEnd_skipBlank hc).mp hend⟩, hc₁⟩
  | true =>
      obtain ⟨next, c₂, hrun, hmatch⟩ := bind_eq_matched.mp hmatch
      obtain ⟨spans, p₂, hderives, hc₂⟩ :=
        sound_declaration c₁ c₂ p next hc₁ (required_eq_matched.mp hrun)
      obtain ⟨spans', q, ⟨rest, rfl, hrest, hend⟩, hq⟩ := h _ c₂ c' p₂ all hc₂ hmatch
      exact ⟨_, q, ⟨next :: rest, by simp, .more hderives hrest, hend⟩, hq⟩

end KestrelCompiler.Rule
