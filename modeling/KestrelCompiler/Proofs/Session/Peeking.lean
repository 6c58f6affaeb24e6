import KestrelCompiler.Proofs.Session.Consistency
import KestrelCompiler.Proofs.Termination.Recursion

/-!
Requests that look ahead. They may move the cursor over the blanks before it, but whatever is asked
next skips those anyway. So in a session without moves they can be left out, and the replies to all
other requests stay as they are.
-/

namespace KestrelCompiler

namespace Rule

variable {α β : Type}

/-- The blanks at the cursor make no difference to the rule. -/
def Skips (r : Rule α) : Prop :=
  ∀ c : Cursor, r c.skipBlank = r c

theorem skips_lexeme (l : Lexeme) : Skips (lexeme l) := by
  intro c
  rw [lexeme, lexeme, Cursor.takeLexeme, Cursor.takeLexeme, Cursor.skipBlank_skipBlank]
  rfl

theorem skips_hasMore : Skips hasMore := by
  intro c
  rw [hasMore_apply, hasMore_apply, Cursor.skipBlank_skipBlank]

theorem skips_stringLiteral : Skips stringLiteral := by
  intro c
  rw [stringLiteral, stringLiteral, Cursor.skipBlank_skipBlank]

theorem skips_bind {r : Rule α} (h : Skips r) (f : α → Rule β) : Skips (r >>= f) := by
  intro c
  change Rule.bind r f c.skipBlank = Rule.bind r f c
  rw [Rule.bind, Rule.bind, h c]

theorem skips_map {r : Rule α} (h : Skips r) (f : α → β) : Skips (f <$> r) :=
  skips_bind h fun a => pure (f a)

theorem skips_orElse {r : Rule α} (h : Skips r) (s : Rule α) : Skips (r <|> s) := by
  intro c
  change Rule.orElse r (fun _ => s) c.skipBlank = Rule.orElse r (fun _ => s) c
  rw [Rule.orElse, Rule.orElse, h c]

theorem skips_required {r : Rule α} (h : Skips r) (e : Expectation) : Skips (required r e) :=
  skips_orElse h (fail e)

theorem skips_optional {r : Rule α} (h : Skips r) : Skips (optional r) :=
  skips_orElse (skips_map h some) (pure none)

theorem skips_expect (text : String) : Skips (expect text) :=
  skips_required (skips_lexeme _) _

theorem skips_climb {κ : Type} {build : κ → α → Token → α → α} {operand : Rule α}
    (h : Skips operand) (levels : List (PrecedenceLevel κ)) :
    Skips (climb build operand levels) := by
  induction levels with
  | nil => exact h
  | cons level tighter ih => exact skips_bind ih _

theorem skips_signature : Skips signature :=
  skips_bind (skips_lexeme _) _

theorem skips_type : Skips type := by
  rw [type_eq]
  exact skips_orElse (skips_map skips_signature _) _

theorem skips_block : Skips block := by
  rw [block_eq]
  exact skips_bind (skips_lexeme _) _

theorem skips_primary : Skips primary :=
  skips_orElse (skips_map (skips_lexeme _) _) _

theorem skips_program : Skips program := by
  refine skips_map ?_ Program.mk
  rw [declarations_eq]
  exact skips_bind skips_hasMore _

end Rule

open Rule

/-- Each rule of the grammar begins with a lexeme or, for a program, by asking whether there is
any. -/
theorem RuleName.skips_rule (r : RuleName) : Skips r.rule := by
  rw [rule_eq]
  apply skips_map
  cases r with
  | program => exact skips_program
  | declaration | directive | conditional | returned => exact skips_bind (skips_lexeme _) _
  | type => exact skips_type
  | signature => exact skips_signature
  | statement => exact skips_orElse (skips_map skips_block _) _
  | block => exact skips_block
  | expression => exact skips_climb skips_primary _
  | primary => exact skips_primary
  | stringLiteral => exact skips_stringLiteral

namespace Cursor

variable {c d : Cursor}

theorem takeLexeme_skipBlank (c : Cursor) (l : Lexeme) :
    c.skipBlank.takeLexeme l = c.takeLexeme l := by
  rw [takeLexeme, takeLexeme, skipBlank_skipBlank]
  rfl

theorem takeChar_skipBlank (c : Cursor) : c.skipBlank.takeChar = c.takeChar := by
  rw [takeChar, takeChar, skipBlank_skipBlank]
  rfl

/-- Before the start of the source there are no blanks to skip. -/
theorem isOutside_skipBlank (c : Cursor) : c.skipBlank.isOutside = c.isOutside := by
  have hoffset : c.skipBlank.location.offset =
      c.location.offset + (c.ahead.takeWhile Text.isBlank).length :=
    Location.offset_walk _ _
  rw [isOutside, isOutside, skipBlank_source, decide_eq_decide]
  constructor
  · intro h
    omega
  · intro h
    have hahead : c.ahead = [] := by
      rw [ahead, if_neg (by omega), if_neg (by omega)]
    rw [hoffset, hahead]
    simpa using h

end Cursor

namespace Request

/-- Tells whether a request moves the cursor to a point that is named. -/
def commits : Request → Bool
  | commit _ => true
  | _ => false

/-- Tells whether a request that got this reply has only looked ahead. -/
def peeks : Request → Reply → Bool
  | location, _ | rest, _ | hasMore, _ | peek, _ | peekChunk, _ | peekRun _, _ | peekLiteral _, _
  | seesKeyword _, _ | source, _ | charAt _, _ | textFrom _, _ | textOf _, _ => true
  | takeRun _, .none | takeLiteral _, .none | takeKeyword _, .none => true
  | expect _, .outcome (.failed _) => true
  | _, _ => false

variable {c d : Cursor}

theorem outcomeOf_skipBlank {r : Rule (Option Phrase)} (h : Skips r) (c : Cursor) :
    outcomeOf r c.skipBlank = outcomeOf r c := by
  rw [outcomeOf, outcomeOf, h c]

/-- What a request does that begins by skipping blanks does not depend on them. -/
theorem perform_skipBlank {request : Request} (h : request.skipsBlank = true) (c : Cursor) :
    request.perform c.skipBlank = request.perform c := by
  cases request with
  | source | charAt _ | textFrom _ | textOf _ | commit _ => cases h
  | location | rest | hasMore | peek | peekChunk | peekRun _ | peekLiteral _ | seesKeyword _ =>
      simp only [perform, Cursor.skipBlank_skipBlank, Cursor.skipBlank_source]
  | advance => simp only [perform, Cursor.takeChar_skipBlank]
  | takeRun _ | takeLiteral _ | takeKeyword _ =>
      simp only [perform, Cursor.takeLexeme_skipBlank]
  | expect text => exact outcomeOf_skipBlank (skips_map (skips_expect text) _) c
  | rule r => exact outcomeOf_skipBlank (skips_map r.skips_rule _) c
  | required r message =>
      exact outcomeOf_skipBlank (skips_map (skips_required r.skips_rule _) _) c
  | optional r => exact outcomeOf_skipBlank (skips_optional r.skips_rule) c
  | binary levels operand =>
      exact outcomeOf_skipBlank (skips_map (skips_climb operand.skips_rule levels) _) c

/-- The other requests ask for a piece of the source and do not move the cursor. -/
theorem perform_of_not_skipsBlank {request : Request} (hskips : request.skipsBlank = false)
    (hcommits : request.commits = false) (h : c.source = d.source) :
    (request.perform c).1 = (request.perform d).1 ∧ (request.perform c).2 = c := by
  cases request with
  | source => exact ⟨congrArg Reply.text h, rfl⟩
  | charAt l | textFrom l | textOf l =>
      simp only [perform, Cursor.charAt?, Cursor.textFrom?, Cursor.textOf?, h, and_self]
  | commit l => cases hcommits
  | _ => cases hskips

/-- Cursors that differ in the blanks before them give the same reply and differ no more than that
afterwards. -/
theorem run_eq_of_skipBlank {request : Request} (hcommits : request.commits = false)
    (h : c.skipBlank = d.skipBlank) :
    (request.run c).1 = (request.run d).1 ∧
      (request.run c).2.skipBlank = (request.run d).2.skipBlank := by
  have hsource : c.source = d.source := by
    rw [← c.skipBlank_source, h, d.skipBlank_source]
  have houtside : c.isOutside = d.isOutside := by
    rw [← c.isOutside_skipBlank, h, d.isOutside_skipBlank]
  rw [run, run, houtside]
  split
  · exact ⟨rfl, h⟩
  · cases hskips : request.skipsBlank with
    | true =>
        rw [← perform_skipBlank hskips c, h, perform_skipBlank hskips d]
        exact ⟨rfl, rfl⟩
    | false =>
        obtain ⟨hreply, hc⟩ := perform_of_not_skipsBlank hskips hcommits hsource
        obtain ⟨-, hd⟩ := perform_of_not_skipsBlank (c := d) (d := d) hskips hcommits rfl
        rw [hc, hd]
        exact ⟨hreply, h⟩

/-- Where no lexeme is found the cursor stops behind the blanks. -/
theorem skipBlank_perform_of_token {request : Request} {l : Lexeme}
    (hperform : request.perform c = (.ofOption .token (c.takeLexeme l).1, (c.takeLexeme l).2))
    (htoken : ∀ t, request.peeks (.token t) = false)
    (h : request.peeks (request.perform c).1 = true) :
    (request.perform c).2.skipBlank = c.skipBlank := by
  rw [hperform] at h ⊢
  rw [Cursor.takeLexeme] at h ⊢
  cases hfound : l c.skipBlank with
  | some span =>
      rw [hfound] at h
      exact absurd h (Bool.eq_false_iff.mp (htoken _))
  | none => exact c.skipBlank_skipBlank

theorem skipBlank_perform_expect {text : String}
    (h : (expect text).peeks ((expect text).perform c).1 = true) :
    ((expect text).perform c).2.skipBlank = c.skipBlank := by
  rw [perform, outcomeOf] at h ⊢
  rcases hrun : ((some ∘ Phrase.token) <$> Rule.expect text) c with ⟨a | - | p, d⟩
  · rw [hrun] at h
    cases h
  · rw [hrun] at h
    cases h
  · rcases orElse_eq_failed.mp (map_eq_failed.mp hrun) with hfailed | ⟨c₁, hnone, hfail⟩
    · exact absurd hfailed lexeme_ne_failed
    · obtain ⟨-, rfl⟩ := lexeme_eq_noMatch.mp hnone
      cases hfail
      change c.skipBlank.skipBlank.skipBlank = c.skipBlank
      rw [Cursor.skipBlank_skipBlank, Cursor.skipBlank_skipBlank]

/-- A request that only looks ahead leads over blanks at most. -/
theorem skipBlank_run_of_peeks {request : Request} (h : request.peeks (request.run c).1 = true) :
    (request.run c).2.skipBlank = c.skipBlank := by
  rw [run] at h ⊢
  split
  · rfl
  · next hinside =>
      rw [if_neg hinside] at h
      cases request with
      | location | rest | hasMore | peek | peekChunk | peekRun _ | peekLiteral _ | seesKeyword _ =>
          exact c.skipBlank_skipBlank
      | source | charAt _ | textFrom _ | textOf _ => rfl
      | takeRun accepts =>
          exact skipBlank_perform_of_token (l := .run accepts) rfl (fun _ => rfl) h
      | takeLiteral text =>
          exact skipBlank_perform_of_token (l := .literal text) rfl (fun _ => rfl) h
      | takeKeyword text =>
          exact skipBlank_perform_of_token (l := .keyword text) rfl (fun _ => rfl) h
      | expect text => exact skipBlank_perform_expect h
      | _ => cases h

end Request

namespace Cursor

/-- The replies to a sequence of requests. -/
def replies (c : Cursor) (requests : List Request) : List Reply :=
  (c.session requests).map (·.1)

theorem replies_cons (c : Cursor) (request : Request) (rest : List Request) :
    c.replies (request :: rest) = (request.run c).1 :: (request.run c).2.replies rest := rfl

/-- From cursors that differ in the blanks before them, the requests that are kept get the same
replies whether or not the others are made. -/
theorem replies_of_kept {steps : List (Request × Bool)} {c d : Cursor}
    (h : c.skipBlank = d.skipBlank) (hcommits : ∀ step ∈ steps, step.1.commits = false)
    (hpeeks : ∀ entry ∈ steps.zip (c.replies (steps.map (·.1))),
      entry.1.2 = false → entry.1.1.peeks entry.2 = true) :
    d.replies ((steps.filter (·.2)).map (·.1)) =
      ((steps.zip (c.replies (steps.map (·.1)))).filter (·.1.2)).map (·.2) := by
  induction steps generalizing c d with
  | nil => rfl
  | cons step rest ih =>
      obtain ⟨request, kept⟩ := step
      rw [List.map_cons, replies_cons, List.zip_cons_cons] at hpeeks ⊢
      obtain ⟨hcommit, hcommitsRest⟩ := List.forall_mem_cons.mp hcommits
      obtain ⟨hpeek, hpeeksRest⟩ := List.forall_mem_cons.mp hpeeks
      cases kept with
      | false =>
          have hskip := Request.skipBlank_run_of_peeks (hpeek rfl)
          exact ih (hskip.trans h) hcommitsRest hpeeksRest
      | true =>
          obtain ⟨hreply, hskip⟩ := Request.run_eq_of_skipBlank hcommit h
          rw [List.filter_cons_of_pos rfl, List.filter_cons_of_pos rfl, List.map_cons,
            List.map_cons, replies_cons, ← hreply]
          exact congrArg _ (ih hskip hcommitsRest hpeeksRest)

/-- In a session without moves, some requests are left out that have only looked ahead: questions
about what comes, and attempts to read something that is not there. All others get the same replies
as before. -/
theorem replies_without_peeks {source : String} {steps : List (Request × Bool)}
    (hcommits : ∀ step ∈ steps, step.1.commits = false)
    (hpeeks : ∀ entry ∈ steps.zip ((ofString source).replies (steps.map (·.1))),
      entry.1.2 = false → entry.1.1.peeks entry.2 = true) :
    (ofString source).replies ((steps.filter (·.2)).map (·.1)) =
      ((steps.zip ((ofString source).replies (steps.map (·.1)))).filter (·.1.2)).map (·.2) :=
  replies_of_kept rfl hcommits hpeeks

/-- A sum and one more character are read, with looks ahead in between. -/
def sumSteps : List (Request × Bool) :=
  [(.peek, false), (.takeLiteral "(", false), (.rule .expression, true), (.expect ",", false),
    (.peekRun Text.isBlank, false), (.advance, true)]

theorem replies_without_peeks_sum :
    (∀ step ∈ sumSteps, step.1.commits = false) ∧
    (ofString "  a + 1 )").replies [.rule .expression, .advance] =
      ((sumSteps.zip ((ofString "  a + 1 )").replies (sumSteps.map (·.1)))).filter
        (·.1.2)).map (·.2) := by
  have hcommits : ∀ step ∈ sumSteps, step.1.commits = false := by decide
  refine ⟨hcommits, replies_without_peeks hcommits ?_⟩
  decide +kernel

end Cursor

end KestrelCompiler
