import KestrelCompiler.Step

/-!
Steps one after the other. A sequence goes on with what the first step gives, or stops where that
stops.
-/

namespace KestrelCompiler

namespace Step

variable {σ ε α β : Type} {s s' : σ}

theorem bind_eq_ok {x : Step σ ε α} {f : α → Step σ ε β} {b : β} :
    (x >>= f) s = (.ok b, s') ↔ ∃ a s₁, x s = (.ok a, s₁) ∧ f a s₁ = (.ok b, s') := by
  change Step.bind x f s = _ ↔ _
  rw [Step.bind]
  rcases x s with ⟨e | a, s₁⟩ <;> simp [and_assoc]

theorem bind_of_ok {x : Step σ ε α} {next : α → Step σ ε β} {a : α} (h : x s = (.ok a, s')) :
    (x >>= next) s = next a s' := by
  change Step.bind x next s = _
  rw [Step.bind, h]

theorem bind_of_error {x : Step σ ε α} {next : α → Step σ ε β} {e : ε}
    (h : x s = (.error e, s')) : (x >>= next) s = (.error e, s') := by
  change Step.bind x next s = _
  rw [Step.bind, h]

theorem bind_assoc {γ : Type} (x : Step σ ε α) (f : α → Step σ ε β) (g : β → Step σ ε γ) :
    (x >>= f) >>= g = x >>= fun a => f a >>= g := by
  funext s
  rcases hx : x s with ⟨e | a, s'⟩
  · rw [bind_of_error (bind_of_error hx), bind_of_error hx]
  · rw [bind_of_ok hx]
    rcases hf : f a s' with ⟨e | b, s''⟩
    · rw [bind_of_error ((bind_of_ok hx).trans hf), bind_of_error hf]
    · rw [bind_of_ok ((bind_of_ok hx).trans hf), bind_of_ok hf]

theorem pure_bind (a : α) (f : α → Step σ ε β) : pure a >>= f = f a :=
  rfl

theorem get_bind (f : σ → Step σ ε β) : (get >>= f) s = f s s :=
  rfl

theorem pure_eq_ok {a b : α} : (pure a : Step σ ε α) s = (.ok b, s') ↔ a = b ∧ s = s' := by
  change (Except.ok a, s) = _ ↔ _
  simp

end Step

end KestrelCompiler
