/-!
Steps that work on a state and may stop. What was done to the state before a stop stays done.
-/

namespace KestrelCompiler

def Step (σ ε α : Type) := σ → Except ε α × σ

namespace Step

variable {σ ε α β : Type}

protected def pure (a : α) : Step σ ε α := fun s => (.ok a, s)

protected def bind (x : Step σ ε α) (f : α → Step σ ε β) : Step σ ε β := fun s =>
  match x s with
  | (.ok a, s) => f a s
  | (.error e, s) => (.error e, s)

instance : Monad (Step σ ε) where
  pure := Step.pure
  bind := Step.bind

def stop (e : ε) : Step σ ε α := fun s => (.error e, s)

def get : Step σ ε σ := fun s => (.ok s, s)

def update (f : σ → σ) : Step σ ε Unit := fun s => (.ok (), f s)

end Step

end KestrelCompiler
