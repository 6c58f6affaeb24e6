import KestrelCompiler.Phrase
import KestrelCompiler.Proofs.Grammar.Commitment

/-!
Refusal. A rule does not apply exactly where its first lexeme is absent, and it leaves the cursor in
front of what stands there instead. Past its first lexeme it is committed, so that only this lexeme
decides; of alternatives, one has to apply.
-/

namespace KestrelCompiler

namespace Cursor

/-- From before the start of the source, moving by `n` characters also leaves the others ahead. -/
theorem ahead_moveTo {c : Cursor} {l : Location} {n : Nat} (hneg : c.location.offset < 0)
    (hinside : -c.source.length ≤ c.location.offset) (hl : l.offset = c.location.offset + n) :
    (c.moveTo l).ahead = c.ahead.drop n := by
  have hahead : c.ahead =
      c.source.drop (c.source.length + c.location.offset).toNat ++ c.source := by
    rw [ahead, if_neg (by omega), if_pos hinside, Text.sliceFrom, Text.placeOf, if_pos hneg]
  rw [hahead, List.drop_append, List.drop_drop, List.length_drop]
  by_cases hbefore : l.offset < 0
  · have hplace : (c.source.length + c.location.offset).toNat + n =
        (c.source.length + l.offset).toNat := by
      omega
    have hnone : n - (c.source.length - (c.source.length + c.location.offset).toNat) = 0 := by
      omega
    rw [hplace, hnone, ahead, moveTo_location, moveTo_source, if_neg (by omega),
      if_pos (by omega), Text.sliceFrom, Text.placeOf, if_pos hbefore]
    rfl
  · have hplace : n - (c.source.length - (c.source.length + c.location.offset).toNat) =
        l.offset.toNat := by
      omega
    have hnone : c.source.drop ((c.source.length + c.location.offset).toNat + n) = [] :=
      List.drop_of_length_le (by omega)
    rw [hplace, hnone, ahead, moveTo_location, moveTo_source, if_pos (by omega)]
    rfl

/-- What is ahead after blanks, from wherever it is read. -/
theorem ahead_skipBlank (c : Cursor) : c.skipBlank.ahead = c.ahead.dropWhile Text.isBlank := by
  have hoffset : c.skipBlank.location.offset =
      c.location.offset + (c.ahead.takeWhile Text.isBlank).length :=
    Location.offset_walk _ _
  by_cases hnonneg : 0 ≤ c.location.offset
  · rw [ahead_of_nonneg hnonneg, ahead_of_nonneg (nonneg_skipBlank hnonneg), rest_skipBlank hnonneg]
  by_cases hinside : -c.source.length ≤ c.location.offset
  · have hsplit : c.ahead.drop (c.ahead.takeWhile Text.isBlank).length =
        c.ahead.dropWhile Text.isBlank := by
      conv => lhs; arg 2; rw [← List.takeWhile_append_dropWhile (p := Text.isBlank) (l := c.ahead)]
      rw [List.drop_left]
    rw [← hsplit]
    exact ahead_moveTo (by omega) hinside hoffset
  · have hahead : c.ahead = [] := by
      rw [ahead, if_neg hnonneg, if_neg hinside]
    rw [hahead, List.takeWhile_nil, List.length_nil] at hoffset
    rw [hahead, ahead, if_neg (by omega), if_neg (by rw [skipBlank_source]; omega)]
    rfl

theorem skipBlank_skipBlank (c : Cursor) : c.skipBlank.skipBlank = c.skipBlank := by
  have hhead := head?_dropWhile_eq_false Text.isBlank c.ahead
  have hword := @takeWhile_append_eq Char Text.isBlank [] _ nofun hhead
  rw [List.nil_append] at hword
  rw [skipBlank, ahead_skipBlank, hword.1, Location.walk_nil]
  rfl

end Cursor

/-- The text begins with a character of a kind. -/
def Text.BeginsWith (text : List Char) (P : Char → Prop) : Prop :=
  ∃ c ∈ text.head?, P c

/-- The text begins with a word and a blank or nothing after it. -/
def Text.BeginsWithWord (text : List Char) (word : String) : Prop :=
  ∃ after, text = word.toList ++ after ∧ ∀ c ∈ after.head?, isBlank c = true

/-- The text begins with identifier characters that a `!` touches. -/
def Text.BeginsWithBang (text : List Char) : Prop :=
  ∃ name after, name ≠ [] ∧ (∀ c ∈ name, isIdentChar c = true) ∧ text = name ++ '!' :: after

open Text in
/-- The text, from its first character that is no blank on, begins with the first lexeme of a
rule. A program may be empty, so it has none. -/
def RuleName.Opens (text : List Char) : RuleName → Prop
  | program => True
  | declaration => BeginsWith text (isIdentChar · = true)
  | type => BeginsWith text fun c => c = '(' ∨ isIdentChar c = true
  | signature => BeginsWith text (· = '(')
  | block => BeginsWith text (· = '{')
  | conditional => BeginsWithWord text "if"
  | returned => BeginsWith text (· = ':')
  | directive => BeginsWithBang text
  | statement => BeginsWith text (· = '{') ∨ BeginsWithWord text "if" ∨
      BeginsWith text (· = ':') ∨ BeginsWithBang text
  | expression | primary => BeginsWith text fun c => isIdentChar c = true ∨ c = '"'
  | stringLiteral => BeginsWith text (· = '"')

namespace Rule

open Text

variable {α β : Type}

/-- Where the rule does not apply, the cursor has moved over the blanks in front of it, and this is
so exactly where the text after them does not open the rule. -/
structure AppliesTo (r : Rule α) (opens : List Char → Prop) : Prop where
  still : ∀ c c', r c = (.noMatch, c') → c' = c.skipBlank
  refuses_iff : ∀ c, 0 ≤ c.location.offset →
    ((∃ c', r c = (.noMatch, c')) ↔ ¬ opens c.skipBlank.rest)

section Composed

variable {r s : Rule α} {f : α → Rule β} {opens opens' : List Char → Prop}

theorem AppliesTo.congr (h : AppliesTo r opens) (heq : ∀ text, opens text ↔ opens' text) :
    AppliesTo r opens' where
  still := h.still
  refuses_iff c hc := by rw [h.refuses_iff c hc, heq]

theorem appliesTo_of_committed (h : Committed r) : AppliesTo r fun _ => True where
  still c c' hnone := absurd hnone (h c c')
  refuses_iff c _ := by
    rw [not_true]
    exact ⟨fun ⟨c', hnone⟩ => h c c' hnone, False.elim⟩

theorem appliesTo_lexeme {l : Lexeme} {shape : Shape} (h : l.Finds shape) :
    AppliesTo (lexeme l) fun text => ∃ word after, text = word ++ after ∧ shape word after where
  still c c' hnone := (lexeme_eq_noMatch.mp hnone).2.symm
  refuses_iff c hc := by
    have hfinds := h c.skipBlank (Cursor.nonneg_skipBlank hc)
    simp only [lexeme_eq_noMatch, exists_and_left, exists_eq', and_true]
    rw [Option.eq_none_iff_forall_ne_some]
    constructor
    · rintro hnone ⟨word, after, hrest, hshape⟩
      exact hnone _ ((hfinds _).mpr ⟨word, after, hrest, hshape, rfl⟩)
    · rintro hnone span hspan
      obtain ⟨word, after, hrest, hshape, -⟩ := (hfinds span).mp hspan
      exact hnone ⟨word, after, hrest, hshape⟩

/-- What comes after the first lexeme has no part in whether a rule applies. -/
theorem appliesTo_bind (h : AppliesTo r opens) (hf : ∀ a, Committed (f a)) :
    AppliesTo (r >>= f) opens := by
  have hfirst : ∀ c c', (r >>= f) c = (.noMatch, c') ↔ r c = (.noMatch, c') := by
    intro c c'
    rw [bind_eq_noMatch]
    refine ⟨fun hnone => hnone.resolve_right ?_, .inl⟩
    rintro ⟨a, c₁, -, hthen⟩
    exact hf a c₁ c' hthen
  refine ⟨fun c c' hnone => h.still c c' ((hfirst c c').mp hnone), fun c hc => ?_⟩
  simp only [hfirst, h.refuses_iff c hc]

theorem appliesTo_map (h : AppliesTo r opens) (g : α → β) : AppliesTo (g <$> r) opens :=
  appliesTo_bind h fun _ => committed_pure _

/-- The second of two alternatives is tried in front of the same text as the first one. -/
theorem appliesTo_orElse (hr : AppliesTo r opens) (hs : AppliesTo s opens') :
    AppliesTo (r <|> s) fun text => opens text ∨ opens' text where
  still c c' hnone := by
    obtain ⟨c₁, hfirst, hthen⟩ := orElse_eq_noMatch.mp hnone
    rw [hs.still c₁ c' hthen, hr.still c c₁ hfirst, Cursor.skipBlank_skipBlank]
  refuses_iff c hc := by
    have hsecond := hs.refuses_iff c.skipBlank (Cursor.nonneg_skipBlank hc)
    rw [Cursor.skipBlank_skipBlank] at hsecond
    rw [not_or, ← hr.refuses_iff c hc, ← hsecond]
    simp only [orElse_eq_noMatch]
    constructor
    · rintro ⟨c', c₁, hfirst, hthen⟩
      obtain rfl := hr.still c c₁ hfirst
      exact ⟨⟨_, hfirst⟩, c', hthen⟩
    · rintro ⟨⟨c₁, hfirst⟩, c', hthen⟩
      obtain rfl := hr.still c c₁ hfirst
      exact ⟨c', _, hfirst, hthen⟩

end Composed

section Lexemes

theorem appliesTo_token {text : String} {ch : Char} (htext : text.toList = [ch]) :
    AppliesTo (token text) fun t => BeginsWith t (· = ch) := by
  have hne : text.toList ≠ [] := htext ▸ List.cons_ne_nil ch []
  refine (appliesTo_lexeme (Lexeme.finds_literal hne)).congr fun t => ?_
  constructor
  · rintro ⟨word, after, rfl, hword⟩
    exact ⟨ch, by rw [hword.trans htext]; rfl, rfl⟩
  · rintro ⟨_, hhead, rfl⟩
    obtain ⟨after, rfl⟩ := List.head?_eq_some_iff.mp hhead
    exact ⟨_, after, rfl, htext.symm⟩

/-- A run of accepted characters begins wherever the first character is accepted. -/
theorem exists_run_iff (accepts : Char → Bool) (text : List Char) :
    (∃ word after, text = word ++ after ∧ Shape.run accepts word after) ↔
      BeginsWith text (accepts · = true) := by
  constructor
  · rintro ⟨word, after, rfl, hne, hword, -⟩
    cases word with
    | nil => exact absurd rfl hne
    | cons ch more => exact ⟨ch, rfl, hword ch List.mem_cons_self⟩
  · rintro ⟨ch, hhead, hch⟩
    obtain ⟨more, rfl⟩ := List.head?_eq_some_iff.mp hhead
    refine ⟨_, _, List.takeWhile_append_dropWhile.symm, ?_,
      List.all_eq_true.mp List.all_takeWhile, head?_dropWhile_eq_false accepts _⟩
    rw [List.takeWhile_cons_of_pos hch]
    exact List.cons_ne_nil _ _

theorem appliesTo_identifier :
    AppliesTo (lexeme .identifier) fun text => BeginsWith text (isIdentChar · = true) :=
  (appliesTo_lexeme Lexeme.finds_identifier).congr (exists_run_iff isIdentChar)

theorem appliesTo_numeral :
    AppliesTo (lexeme .numeral) fun text => BeginsWith text (isNumeric · = true) := by
  refine (appliesTo_lexeme Lexeme.finds_numeral).congr fun text => ?_
  constructor
  · rintro ⟨word, after, rfl, ⟨first, more, rfl, hfirst, -⟩, -⟩
    exact ⟨first, rfl, hfirst⟩
  · rintro ⟨first, hhead, hfirst⟩
    obtain ⟨more, rfl⟩ := List.head?_eq_some_iff.mp hhead
    refine ⟨first :: more.takeWhile isNumberChar, more.dropWhile isNumberChar, ?_,
      ⟨first, _, rfl, hfirst, List.all_eq_true.mp List.all_takeWhile⟩,
      head?_dropWhile_eq_false isNumberChar more⟩
    rw [List.cons_append, List.takeWhile_append_dropWhile]

theorem appliesTo_keyword {text : String} (htext : (Shape.fixed text).Solid) :
    AppliesTo (lexeme (.keyword text)) (BeginsWithWord · text) := by
  refine (appliesTo_lexeme (Lexeme.finds_keyword htext.ne_nil)).congr fun t => ?_
  constructor
  · rintro ⟨word, after, rfl, rfl, hblank⟩
    exact ⟨after, rfl, hblank⟩
  · rintro ⟨after, rfl, hblank⟩
    exact ⟨_, after, rfl, rfl, hblank⟩

theorem appliesTo_directiveName : AppliesTo (lexeme .directiveName) BeginsWithBang := by
  refine (appliesTo_lexeme Lexeme.finds_directiveName).congr fun text => ?_
  constructor
  · rintro ⟨word, after, rfl, ⟨hne, hword, -⟩, hbang⟩
    obtain ⟨more, rfl⟩ := List.head?_eq_some_iff.mp hbang
    exact ⟨word, more, hne, hword, rfl⟩
  · rintro ⟨name, more, hne, hname, rfl⟩
    refine ⟨name, '!' :: more, rfl, ⟨hne, hname, ?_⟩, rfl⟩
    rintro _ ⟨⟩
    decide

/-- A literal is read or fails wherever a quotation mark stands. -/
theorem appliesTo_stringLiteral :
    AppliesTo stringLiteral fun text => BeginsWith text (· = '"') := by
  have hnone : ∀ c c', stringLiteral c = (.noMatch, c') ↔ token "\"" c = (.noMatch, c') := by
    intro c c'
    rw [token, lexeme_eq_noMatch]
    simp only [stringLiteral]
    split
    · next mark hmark =>
        rw [hmark]
        split <;> simp
    · next hmark => simp [hmark]
  have htoken := @appliesTo_token "\"" '"' rfl
  refine ⟨fun c c' h => htoken.still c c' ((hnone c c').mp h), fun c hc => ?_⟩
  simp only [hnone, htoken.refuses_iff c hc]

/-- The name of a directive is only found where its `!` stands too. -/
theorem token_of_directiveName {c c' c'' : Cursor} {t : Token}
    (h : lexeme .directiveName c = (.matched t, c')) : token "!" c' ≠ (.noMatch, c'') := by
  obtain ⟨span, hfound, -, rfl⟩ := lexeme_eq_matched.mp h
  have hbang := (Option.filter_eq_some_iff.mp hfound).2
  rw [decide_eq_true_eq, Cursor.charAt?, Option.ite_none_right_eq_some] at hbang
  obtain ⟨hstop, hbang⟩ := hbang
  have hrest : (c.moveTo span.stop).rest.head? = some '!' := by
    rw [Cursor.rest, List.head?_drop]
    exact hbang
  obtain ⟨more, hmore⟩ := List.head?_eq_some_iff.mp hrest
  have hskip : (c.moveTo span.stop).skipBlank.rest = '!' :: more := by
    rw [Cursor.rest_skipBlank hstop, hmore, List.dropWhile_cons_of_neg (by decide)]
  intro hnone
  refine ((appliesTo_token rfl).refuses_iff (c.moveTo span.stop) hstop).mp ⟨c'', hnone⟩ ?_
  rw [hskip]
  exact ⟨'!', rfl, rfl⟩

end Lexemes

theorem appliesTo_signature : AppliesTo signature fun text => BeginsWith text (· = '(') :=
  appliesTo_bind (appliesTo_token rfl) fun _ => committed_bind (committed_typesOf forward_type [])
    fun _ => committed_bind (committed_required _ _) fun _ =>
      committed_bind (committed_optional _) fun _ => committed_pure _

theorem appliesTo_type :
    AppliesTo type fun text => BeginsWith text fun c => c = '(' ∨ isIdentChar c = true := by
  rw [type_eq]
  refine (appliesTo_orElse (appliesTo_map appliesTo_signature _)
    (appliesTo_bind appliesTo_identifier fun name => committed_stars _)).congr fun text => ?_
  simp only [BeginsWith, ← exists_or, ← and_or_left]

theorem appliesTo_primary :
    AppliesTo primary fun text => BeginsWith text fun c => isIdentChar c = true ∨ c = '"' := by
  refine (appliesTo_orElse (appliesTo_map appliesTo_numeral _)
    (appliesTo_orElse (appliesTo_map appliesTo_stringLiteral _)
      (appliesTo_map appliesTo_identifier _))).congr fun text => ?_
  simp only [BeginsWith, ← exists_or, ← and_or_left]
  refine exists_congr fun c => and_congr_right fun _ => ?_
  constructor
  · rintro (hc | hc | hc)
    · exact .inl (isIdentChar_of_isNumeric hc)
    · exact .inr hc
    · exact .inl hc
  · rintro (hc | hc)
    · exact .inr (.inr hc)
    · exact .inr (.inl hc)

theorem appliesTo_climb {κ : Type} {build : κ → α → Token → α → α} {operand : Rule α}
    {opens : List Char → Prop} (h : AppliesTo operand opens) (hforward : Forward operand)
    (levels : List (PrecedenceLevel κ)) : AppliesTo (climb build operand levels) opens := by
  induction levels with
  | nil => exact h
  | cons level tighter ih =>
      exact appliesTo_bind ih fun first =>
        committed_operandsOf (forward_climb hforward tighter) level first

theorem appliesTo_block : AppliesTo block fun text => BeginsWith text (· = '{') := by
  rw [block_eq]
  exact appliesTo_bind (appliesTo_token rfl) fun _ =>
    committed_bind (committed_statementsOf advances_statement []) fun _ =>
      committed_bind (committed_required _ _) fun _ => committed_pure _

theorem appliesTo_conditional : AppliesTo conditional (BeginsWithWord · "if") :=
  appliesTo_bind (appliesTo_keyword Shape.solid_if) fun _ =>
    committed_bind (committed_required _ _) fun _ => committed_bind (committed_required _ _)
      fun _ => committed_alternativeOf _ _ _ _

theorem appliesTo_returned : AppliesTo returned fun text => BeginsWith text (· = ':') :=
  appliesTo_bind (appliesTo_token rfl) fun _ => committed_bind (committed_required _ _) fun _ =>
    committed_pure _

theorem appliesTo_directive : AppliesTo directive BeginsWithBang := by
  -- The `!` is no commitment of its own, so what follows the name is looked at together with it.
  have hfirst : ∀ c c', directive c = (.noMatch, c') ↔
      lexeme .directiveName c = (.noMatch, c') := by
    intro c c'
    rw [directive, bind_eq_noMatch]
    refine ⟨fun hnone => hnone.resolve_right ?_, .inl⟩
    rintro ⟨name, c₁, hname, hthen⟩
    rcases bind_eq_noMatch.mp hthen with hbang | ⟨bang, c₂, -, hthen⟩
    · exact token_of_directiveName hname hbang
    · exact committed_bind (committed_namesAfter name.text []) (fun _ => committed_pure _)
        c₂ c' hthen
  have h := appliesTo_directiveName
  refine ⟨fun c c' hnone => h.still c c' ((hfirst c c').mp hnone), fun c hc => ?_⟩
  simp only [hfirst, h.refuses_iff c hc]

theorem appliesTo_statement : AppliesTo statement fun text => BeginsWith text (· = '{') ∨
    BeginsWithWord text "if" ∨ BeginsWith text (· = ':') ∨ BeginsWithBang text :=
  appliesTo_orElse (appliesTo_map appliesTo_block _)
    (appliesTo_orElse appliesTo_conditional
      (appliesTo_orElse appliesTo_returned appliesTo_directive))

theorem appliesTo_declaration :
    AppliesTo declaration fun text => BeginsWith text (isIdentChar · = true) := by
  refine appliesTo_bind appliesTo_identifier fun name => committed_bind (committed_sees _) ?_
  rintro (- | -)
  · exact fun _ _ h => nomatch h
  · exact committed_definitionOf name

/-- Every rule applies exactly where its first lexeme stands. -/
theorem appliesTo_rule (r : RuleName) : AppliesTo r.rule r.Opens := by
  cases r with
  | program =>
      exact appliesTo_of_committed (committed_bind
        (committed_bind (committed_declarations []) fun _ => committed_pure _)
        fun _ => committed_pure _)
  | declaration => exact appliesTo_map appliesTo_declaration _
  | type => exact appliesTo_map appliesTo_type _
  | signature => exact appliesTo_map appliesTo_signature _
  | statement => exact appliesTo_map appliesTo_statement _
  | conditional => exact appliesTo_map appliesTo_conditional _
  | returned => exact appliesTo_map appliesTo_returned _
  | directive => exact appliesTo_map appliesTo_directive _
  | block => exact appliesTo_map appliesTo_block _
  | expression => exact appliesTo_map (appliesTo_climb appliesTo_primary forward_primary _) _
  | primary => exact appliesTo_map appliesTo_primary _
  | stringLiteral => exact appliesTo_map appliesTo_stringLiteral _

end Rule

end KestrelCompiler
