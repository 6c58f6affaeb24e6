import KestrelCompiler.Proofs.Termination.Recursion

/-!
Every rule stops, and so does the reading of operands and operators for any table of levels. Each
time round a loop something is read, calls go down along the descent, and loops and rules alike are
the only solutions of their equations.
-/

namespace KestrelCompiler

/-- The reading of a literal is over where the text is, and each character ends it or leads on to
the text behind it. -/
structure StringLiteral.Turns (state : State) (read : List Char) (decoded : Bool) (l : Location) :
    Prop where
  stops : ∃ problem, readBody state read decoded l [] = .error problem
  turns : ∀ c, (∃ result, ∀ rest, readBody state read decoded l (c :: rest) = result) ∨
    ∃ state' read' decoded', ∀ rest, readBody state read decoded l (c :: rest) =
      readBody state' read' decoded' (l.advance c) rest

theorem StringLiteral.turns_readBody (state : State) (read : List Char) (decoded : Bool)
    (l : Location) : Turns state read decoded l := by
  refine ⟨⟨_, by rw [readBody]⟩, fun c => ?_⟩
  cases state with
  | plain =>
      by_cases hquote : c = '"'
      · exact .inl ⟨_, fun rest => by rw [readBody, if_pos hquote]⟩
      by_cases hslash : c = '\\'
      · exact .inr ⟨.escape, read, true, fun rest => by
          rw [readBody, if_neg hquote, if_pos hslash]⟩
      by_cases hbreak : (c = '\n' || c = '\r') = true
      · exact .inl ⟨_, fun rest => by rw [readBody, if_neg hquote, if_neg hslash, if_pos hbreak]⟩
      · exact .inr ⟨.plain, c :: read, decoded, fun rest => by
          rw [readBody, if_neg hquote, if_neg hslash, if_neg hbreak]⟩
  | escape =>
      cases hnamed : namedEscape? c with
      | some value =>
          exact .inr ⟨.plain, value :: read, decoded, fun rest => by simp only [readBody, hnamed]⟩
      | none =>
          cases hdigits : escapeDigits? c with
          | some digits =>
              exact .inr ⟨.opening digits, read, decoded, fun rest => by
                simp only [readBody, hnamed, hdigits]⟩
          | none => exact .inl ⟨_, fun rest => by simp only [readBody, hnamed, hdigits]; rfl⟩
  | opening digits =>
      by_cases hbrace : c = '{'
      · exact .inr ⟨.digits digits 0 (l.advance c), read, decoded, fun rest => by
          rw [readBody, if_pos hbrace]⟩
      · exact .inl ⟨_, fun rest => by rw [readBody, if_neg hbrace]⟩
  | digits left value first =>
      cases hvalue : Text.hexValue? c with
      | some d => exact .inr ⟨_, read, decoded, fun rest => by simp only [readBody, hvalue]; rfl⟩
      | none => exact .inl ⟨_, fun rest => by simp only [readBody, hvalue]; rfl⟩
  | closing value first =>
      by_cases hbrace : c ≠ '}'
      · exact .inl ⟨_, fun rest => by rw [readBody, if_pos hbrace]⟩
      by_cases hsurrogate : Text.isSurrogate value
      · exact .inl ⟨_, fun rest => by rw [readBody, if_neg hbrace, if_pos hsurrogate]⟩
      · exact .inr ⟨.plain, Char.ofNat value :: read, decoded, fun rest => by
          rw [readBody, if_neg hbrace, if_neg hsurrogate]⟩

namespace Rule

variable {α κ σ : Type}

/-- A loop that reads something each time round, and the one solution of its equation. -/
structure LoopOf (step : (σ → Rule α) → σ → Rule α) (loop : σ → Rule α) : Prop where
  turns : Loops step
  only : ∀ f, (∀ s, f s = step f s) ↔ f = loop

theorem Loops.loopOf {step : (σ → Rule α) → σ → Rule α} (h : Loops step) :
    LoopOf step (fix step) where
  turns := h
  only := h.eq_fix_iff

/-- The calls of some levels with a rule as operand: the levels call those below them, the tightest
one the rule, and rules call one another. -/
inductive ClimbCalls (build : κ → Phrase → Token → Phrase → Phrase) (operand : RuleName) :
    (List (PrecedenceLevel κ) ⊕ RuleName) × Cursor →
      (List (PrecedenceLevel κ) ⊕ RuleName) × Cursor → Prop
  | level {levels rest : List (PrecedenceLevel κ)} {c d : Cursor} :
    LevelCalls build operand.rule (levels, c) (rest, d) →
    ClimbCalls build operand (.inl levels, c) (.inl rest, d)
  | operand {c : Cursor} : ClimbCalls build operand (.inl [], c) (.inr operand, c)
  | rule {r s : RuleName} {c d : Cursor} :
    RuleName.Calls (r, c) (s, d) → ClimbCalls build operand (.inr r, c) (.inr s, d)

/-- How far down the calls at one cursor can still go. -/
def climbRank : List (PrecedenceLevel κ) ⊕ RuleName → Nat
  | .inl levels => levels.length + 3
  | .inr r => r.rank

end Rule

open Rule

theorem RuleName.rank_le (r : RuleName) : r.rank ≤ 2 := by
  cases r <;> decide

theorem descends_climbCalls {κ : Type} (build : κ → Phrase → Token → Phrase → Phrase)
    (operand : RuleName) : Descends (ClimbCalls build operand) climbRank := by
  refine descends_of_rank fun i c j d hcall => ?_
  cases hcall with
  | level hlevel =>
      refine (hlevel.descends operand.forward_rule).imp_right fun ⟨heq, hlt⟩ => ⟨heq, ?_⟩
      exact Nat.add_lt_add_right hlt 3
  | operand => exact .inr ⟨rfl, Nat.lt_succ_of_le operand.rank_le⟩
  | rule hrule => exact hrule.descends

/-- The rules of the grammar stop. -/
structure GrammarStops : Prop where
  /-- A match leads further on, save for programs, which may be empty. -/
  progress : ∀ r ≠ RuleName.program, ∀ c phrase d,
    r.rule c = (.matched phrase, d) → c.Precedes d
  stars : LoopOf starsStep stars
  types : LoopOf (typesStep type) (typesOf type)
  statements : LoopOf (statementsStep statement) (statementsOf statement)
  names : ∀ name, LoopOf (namesStep name) (namesAfter name)
  declarations : LoopOf declarationsStep declarations
  operators : ∀ level tighter,
    LoopOf (operandsStep Expr.binary (climb .binary primary tighter) level)
      (operandsOf .binary (climb .binary primary tighter) level)
  characters : ∀ state read decoded l, StringLiteral.Turns state read decoded l
  /-- At most two more rules are called at one cursor, each by the one before it. -/
  calls : Descends RuleName.Calls fun _ => 2
  /-- What a rule does is told by the rules that it calls, where it calls them. -/
  determined : ∀ rules (r : RuleName) c,
    (∀ s d, RuleName.Calls (r, c) (s, d) → s.tree d = rules s d) → r.tree c = r.body rules c
  only : ∀ rules, (∀ r : RuleName, rules r = r.body rules) ↔ rules = RuleName.tree
  named : ∀ r : RuleName, r.rule = r.phrase <$> r.tree

/-- Operands that a rule reads and the operators of any levels stop. -/
structure ClimbStops {κ : Type} (build : κ → Phrase → Token → Phrase → Phrase)
    (operand : RuleName) : Prop where
  progress : ∀ levels c phrase d,
    climb build operand.rule levels c = (.matched phrase, d) → c.Precedes d
  operators : ∀ level tighter,
    LoopOf (operandsStep build (climb build operand.rule tighter) level)
      (operandsOf build (climb build operand.rule tighter) level)
  /-- An operator that is read is a text of the table, and not the empty one. -/
  operator : ∀ (operators : List (String × κ)) c op kind d,
    operator operators c = (.matched (op, kind), d) → c.Precedes d ∧
      ∃ text, (text, kind) ∈ operators ∧ text ≠ "" ∧
        Lexeme.literal text c.skipBlank = some op.span
  /-- At one cursor each level is called at most once, and then the operand and two rules more. -/
  calls : Descends (ClimbCalls build operand) fun
    | .inl levels => levels.length + 3
    | .inr _ => 2
  determined : ∀ again levels c,
    (∀ rest d, LevelCalls build operand.rule (levels, c) (rest, d) →
      climb build operand.rule rest d = again rest d) →
    climb build operand.rule levels c = climbWith build operand.rule again levels c
  only : ∀ again, (∀ levels, again levels = climbWith build operand.rule again levels) ↔
    again = climb build operand.rule

theorem grammarStops : GrammarStops where
  progress _ hr _ _ _ hmatch := (RuleName.advances_rule hr).precedes (RuleName.forward_rule _) hmatch
  stars := loops_starsStep.loopOf
  types := (loops_typesStep forward_type).loopOf
  statements := (loops_statementsStep forward_statement advances_statement).loopOf
  names name := (loops_namesStep name).loopOf
  declarations := loops_declarationsStep.loopOf
  operators level tighter :=
    (loops_operandsStep (forward_climb forward_primary tighter) level).loopOf
  characters := StringLiteral.turns_readBody
  calls := RuleName.descends_calls.mono RuleName.rank_le
  determined _ r _ h := r.body_agree h
  only := RuleName.eq_tree_iff
  named := RuleName.rule_eq

theorem climbStops {κ : Type} (build : κ → Phrase → Token → Phrase → Phrase) {operand : RuleName}
    (hr : operand ≠ .program) : ClimbStops build operand where
  progress levels _ _ _ hmatch :=
    (advances_climb operand.forward_rule (RuleName.advances_rule hr) levels).precedes
      (forward_climb operand.forward_rule levels) hmatch
  operators level tighter :=
    (loops_operandsStep (forward_climb operand.forward_rule tighter) level).loopOf
  operator operators c op kind d hop := by
    refine ⟨(advances_operator operators).precedes (forward_operator operators) hop, ?_⟩
    obtain ⟨before, text, after, rfl, htoken, -⟩ := operator_eq_matched hop
    obtain ⟨span, hspan, rfl, -⟩ := lexeme_eq_matched.mp htoken
    refine ⟨text, List.mem_append_right before List.mem_cons_self, ?_, hspan⟩
    rintro rfl
    cases hspan
  calls := (descends_climbCalls build operand).mono fun
    | .inl _ => Nat.le_refl _
    | .inr r => r.rank_le
  determined _ _ _ h := climbWith_agree h
  only := climb_eq_iff

/-- Reading always stops. Each rule but the one for programs moves on when it matches, so that loops
end and calls descend, from any cursor and, with any table of operators, over any of these rules. -/
theorem rules_stop : GrammarStops ∧ ∀ (κ : Type) (build : κ → Phrase → Token → Phrase → Phrase)
    (operand : RuleName), operand ≠ .program → ClimbStops build operand :=
  ⟨grammarStops, fun _ build _ hr => climbStops build hr⟩

theorem rules_stop_overlapping :
    RuleName.conditional ≠ .program ∧ RuleName.primary ≠ .program ∧
    (∃ phrase d, RuleName.conditional.rule (.ofString "if a < b \x7b : c \x7d else \x7b \x7d") =
      (.matched phrase, d) ∧
        (Cursor.ofString "if a < b \x7b : c \x7d else \x7b \x7d").Precedes d) ∧
    ∃ phrase d, climb Phrase.binary RuleName.primary.rule overlappingLevels
      (.ofString "a <- b + c-1 < d - e,") = (.matched phrase, d) ∧
        (Cursor.ofString "a <- b + c-1 < d - e,").Precedes d := by
  have hconditional : RuleName.conditional ≠ .program := nofun
  have hprimary : RuleName.primary ≠ .program := nofun
  obtain ⟨phrase, d, hmatch⟩ := exists_of_isMatched (r := RuleName.conditional.rule)
    (c := .ofString "if a < b \x7b : c \x7d else \x7b \x7d") (by decide +kernel)
  obtain ⟨phrase', d', hmatch'⟩ := exists_of_isMatched
    (r := climb Phrase.binary RuleName.primary.rule overlappingLevels)
    (c := .ofString "a <- b + c-1 < d - e,") (by decide +kernel)
  refine ⟨hconditional, hprimary, ⟨phrase, d, hmatch, ?_⟩, phrase', d', hmatch', ?_⟩
  · exact rules_stop.1.progress _ hconditional _ _ _ hmatch
  · exact (rules_stop.2 _ Phrase.binary _ hprimary).progress _ _ _ _ hmatch'

end KestrelCompiler
