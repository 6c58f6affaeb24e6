import KestrelCompiler.Cursor
import KestrelCompiler.Expectation

/-!
Grammar rules. A rule reads at a cursor and either matches, or does not apply at all, or fails once
it is past its first lexeme and what follows is malformed. A rule that does not apply has moved the
cursor over blanks only, so that another one can be tried there; a failure is final.
-/

namespace KestrelCompiler

inductive Outcome (α : Type) where
  | matched (value : α)
  | noMatch
  | failed (problem : Problem)

namespace Outcome

variable {α β : Type}

def map (f : α → β) : Outcome α → Outcome β
  | matched a => matched (f a)
  | noMatch => noMatch
  | failed p => failed p

end Outcome

/-- A rule gives its outcome and the cursor it leaves behind. -/
def Rule (α : Type) := Cursor → Outcome α × Cursor

namespace Rule

variable {α β σ : Type}

protected def pure (a : α) : Rule α := fun c => (.matched a, c)

/-- Goes on with `f` after a match. -/
protected def bind (r : Rule α) (f : α → Rule β) : Rule β := fun c =>
  match r c with
  | (.matched a, c') => f a c'
  | (.noMatch, c') => (.noMatch, c')
  | (.failed p, c') => (.failed p, c')

instance : Monad Rule where
  pure := Rule.pure
  bind := Rule.bind

/-- Tries `s` where `r` does not apply. -/
protected def orElse (r : Rule α) (s : Unit → Rule α) : Rule α := fun c =>
  match r c with
  | (.noMatch, c') => s () c'
  | other => other

instance : OrElse (Rule α) := ⟨Rule.orElse⟩

/-- The rule that applies nowhere. -/
def never : Rule α := fun c => (.noMatch, c)

/-- Fails at the next lexeme, where something else was expected. -/
def fail (e : Expectation) : Rule α := fun c =>
  (.failed (e.problem c.skipBlank.location), c.skipBlank)

/-- Past a point of no return `r` has to apply. Its own failures keep their place. -/
def required (r : Rule α) (e : Expectation) : Rule α :=
  r <|> fail e

/-- Takes it as a match that `r` does not apply. -/
def optional (r : Rule α) : Rule (Option α) :=
  (some <$> r) <|> pure none

/-- Reads a lexeme. -/
def lexeme (l : Lexeme) : Rule Token := fun c =>
  match c.takeLexeme l with
  | (some token, c') => (.matched token, c')
  | (none, c') => (.noMatch, c')

/-- Tells whether a lexeme stands after the blanks. -/
def sees (l : Lexeme) : Rule Bool := fun c =>
  (.matched (l c.skipBlank).isSome, c.skipBlank)

/-- Tells whether anything but blanks is left. -/
def hasMore : Rule Bool := fun c =>
  (.matched !c.skipBlank.atEnd, c.skipBlank)

/-- Reads a fixed text that has to stand here. -/
def expect (text : String) : Rule Token :=
  required (lexeme (.literal text)) (.literal text)

/-- `step` with its calls of the rule itself replaced by `n` levels of `step`. -/
def unroll (step : (σ → Rule α) → σ → Rule α) : Nat → σ → Rule α
  | 0, _ => never
  | n + 1, s => step (unroll step n) s

/-- The rule that calls itself through `step`. A rule calls itself only after it has read at least
one character, so one level for each character left and one for the call itself are enough. -/
def fix (step : (σ → Rule α) → σ → Rule α) (s : σ) : Rule α := fun c =>
  unroll step (c.remaining + 1) s c

end Rule

end KestrelCompiler
