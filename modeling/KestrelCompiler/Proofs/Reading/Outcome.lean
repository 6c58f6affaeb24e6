import KestrelCompiler.Rule

/-!
Outcomes of composed rules, in terms of those of their parts.
-/

namespace KestrelCompiler

def Outcome.isMatched {α : Type} : Outcome α → Bool
  | matched _ => true
  | _ => false

namespace Rule

variable {α β : Type} {c c' : Cursor}

theorem exists_of_isMatched {r : Rule α} (h : (r c).1.isMatched = true) :
    ∃ a d, r c = (.matched a, d) := by
  rcases hrun : r c with ⟨a | - | p, d⟩
  · exact ⟨a, d, rfl⟩
  · rw [hrun] at h
    cases h
  · rw [hrun] at h
    cases h

theorem bind_eq_matched {r : Rule α} {f : α → Rule β} {b : β} :
    (r >>= f) c = (.matched b, c') ↔
      ∃ a c₁, r c = (.matched a, c₁) ∧ f a c₁ = (.matched b, c') := by
  change Rule.bind r f c = _ ↔ _
  rw [Rule.bind]
  rcases r c with ⟨a | - | p, c₁⟩ <;> simp [and_assoc]

theorem bind_eq_noMatch {r : Rule α} {f : α → Rule β} :
    (r >>= f) c = (.noMatch, c') ↔
      r c = (.noMatch, c') ∨ ∃ a c₁, r c = (.matched a, c₁) ∧ f a c₁ = (.noMatch, c') := by
  change Rule.bind r f c = _ ↔ _
  rw [Rule.bind]
  rcases r c with ⟨a | - | p, c₁⟩ <;> simp [and_assoc]

theorem bind_eq_failed {r : Rule α} {f : α → Rule β} {p : Problem} :
    (r >>= f) c = (.failed p, c') ↔
      r c = (.failed p, c') ∨ ∃ a c₁, r c = (.matched a, c₁) ∧ f a c₁ = (.failed p, c') := by
  change Rule.bind r f c = _ ↔ _
  rw [Rule.bind]
  rcases r c with ⟨a | - | p, c₁⟩ <;> simp [and_assoc]

theorem bind_of_matched {r : Rule α} {f : α → Rule β} {a : α} (h : r c = (.matched a, c')) :
    (r >>= f) c = f a c' := by
  change Rule.bind r f c = _
  rw [Rule.bind, h]

theorem bind_of_noMatch {r : Rule α} {f : α → Rule β} (h : r c = (.noMatch, c')) :
    (r >>= f) c = (.noMatch, c') := by
  change Rule.bind r f c = _
  rw [Rule.bind, h]

@[simp] theorem pure_apply (a : α) (c : Cursor) : (pure a : Rule α) c = (.matched a, c) := rfl

theorem map_eq_matched {r : Rule α} {f : α → β} {b : β} :
    (f <$> r) c = (.matched b, c') ↔ ∃ a, r c = (.matched a, c') ∧ f a = b := by
  change Rule.bind r (fun a => pure (f a)) c = _ ↔ _
  rw [Rule.bind]
  rcases r c with ⟨a | - | p, c₁⟩ <;> simp [and_assoc, and_comm (a := f _ = b)]

theorem map_eq_noMatch {r : Rule α} {f : α → β} :
    (f <$> r) c = (.noMatch, c') ↔ r c = (.noMatch, c') := by
  change Rule.bind r (fun a => pure (f a)) c = _ ↔ _
  rw [Rule.bind]
  rcases r c with ⟨a | - | p, c₁⟩ <;> simp

theorem map_eq_failed {r : Rule α} {f : α → β} {p : Problem} :
    (f <$> r) c = (.failed p, c') ↔ r c = (.failed p, c') := by
  change Rule.bind r (fun a => pure (f a)) c = _ ↔ _
  rw [Rule.bind]
  rcases r c with ⟨a | - | p, c₁⟩ <;> simp

theorem orElse_eq_matched {r s : Rule α} {a : α} :
    (r <|> s) c = (.matched a, c') ↔
      r c = (.matched a, c') ∨ ∃ c₁, r c = (.noMatch, c₁) ∧ s c₁ = (.matched a, c') := by
  change Rule.orElse r (fun _ => s) c = _ ↔ _
  rw [Rule.orElse]
  rcases r c with ⟨a | - | p, c₁⟩ <;> simp

theorem orElse_eq_noMatch {r s : Rule α} :
    (r <|> s) c = (.noMatch, c') ↔
      ∃ c₁, r c = (.noMatch, c₁) ∧ s c₁ = (.noMatch, c') := by
  change Rule.orElse r (fun _ => s) c = _ ↔ _
  rw [Rule.orElse]
  rcases r c with ⟨a | - | p, c₁⟩ <;> simp

theorem orElse_eq_failed {r s : Rule α} {p : Problem} :
    (r <|> s) c = (.failed p, c') ↔
      r c = (.failed p, c') ∨ ∃ c₁, r c = (.noMatch, c₁) ∧ s c₁ = (.failed p, c') := by
  change Rule.orElse r (fun _ => s) c = _ ↔ _
  rw [Rule.orElse]
  rcases r c with ⟨a | - | p, c₁⟩ <;> simp

theorem orElse_of_matched {r s : Rule α} {a : α} (h : r c = (.matched a, c')) :
    (r <|> s) c = (.matched a, c') :=
  orElse_eq_matched.mpr (.inl h)

theorem orElse_of_noMatch {r s : Rule α} (h : r c = (.noMatch, c')) : (r <|> s) c = s c' := by
  change Rule.orElse r (fun _ => s) c = _
  rw [Rule.orElse, h]

theorem required_eq_matched {r : Rule α} {e : Expectation} {a : α} :
    required r e c = (.matched a, c') ↔ r c = (.matched a, c') := by
  rw [required, orElse_eq_matched]
  simp [fail]

theorem optional_eq_some {r : Rule α} {a : α} :
    optional r c = (.matched (some a), c') ↔ r c = (.matched a, c') := by
  rw [optional, orElse_eq_matched, map_eq_matched]
  simp

theorem optional_eq_none {r : Rule α} :
    optional r c = (.matched none, c') ↔ r c = (.noMatch, c') := by
  rw [optional, orElse_eq_matched, map_eq_matched]
  simp only [reduceCtorEq, and_false, exists_false, false_or]
  change (∃ c₁, Rule.bind r (fun a => pure (some a)) c = _ ∧ _) ↔ _
  rw [Rule.bind]
  rcases r c with ⟨a | - | p, c₁⟩ <;> simp

theorem optional_eq_failed {r : Rule α} {p : Problem} :
    optional r c = (.failed p, c') ↔ r c = (.failed p, c') := by
  rw [optional, orElse_eq_failed, map_eq_failed]
  simp

theorem lexeme_eq_matched {l : Lexeme} {t : Token} :
    lexeme l c = (.matched t, c') ↔
      ∃ span, l c.skipBlank = some span ∧ Token.ofSpan c.source span = t ∧
        c.moveTo span.stop = c' := by
  rw [lexeme, Cursor.takeLexeme]
  cases l c.skipBlank <;> simp

theorem lexeme_eq_noMatch {l : Lexeme} :
    lexeme l c = (.noMatch, c') ↔ l c.skipBlank = none ∧ c.skipBlank = c' := by
  rw [lexeme, Cursor.takeLexeme]
  cases l c.skipBlank <;> simp

theorem lexeme_ne_failed {l : Lexeme} {p : Problem} : lexeme l c ≠ (.failed p, c') := by
  rw [lexeme, Cursor.takeLexeme]
  cases l c.skipBlank <;> simp

theorem sees_apply (l : Lexeme) (c : Cursor) :
    sees l c = (.matched (l c.skipBlank).isSome, c.skipBlank) := rfl

theorem hasMore_apply (c : Cursor) : hasMore c = (.matched !c.skipBlank.atEnd, c.skipBlank) := rfl

end Rule

end KestrelCompiler
