import KestrelCompiler.Phrase
import KestrelCompiler.Proofs.Grammar.Refusal

/-!
Operator precedence, for any table of operators and any operands. A match is a tree of operands and
operators that were read from left to right. Operators of one level group to the left, those of a
looser level stand outside, and behind the last operand no operator is left. The operators may be
shared between levels, begin one another or be empty: what counts is which of them stands at a
cursor, in the order in which they are tried there.
-/

namespace KestrelCompiler

/-- What is read one after the other: an operand, or an operator of the level with this number. -/
inductive Item (α κ : Type) where
  | operand (a : α)
  | operator (level : Nat) (kind : κ) (op : Token)

/-- How operands were joined. Each node knows the number of its level, the loosest being 0. -/
inductive Joined (α κ : Type) where
  | operand (a : α)
  | node (level : Nat) (kind : κ) (left : Joined α κ) (op : Token) (right : Joined α κ)

namespace Joined

variable {α κ : Type}

/-- What is built from the operands. -/
def value (build : κ → α → Token → α → α) : Joined α κ → α
  | operand a => a
  | node _ kind left op right => build kind (left.value build) op (right.value build)

/-- The operands and operators from left to right. -/
def items : Joined α κ → List (Item α κ)
  | operand a => [.operand a]
  | node level kind left op right => left.items ++ .operator level kind op :: right.items

/-- All is an operand or was built at level `i` or a tighter one. -/
def AtLeast (i : Nat) : Joined α κ → Prop
  | operand _ => True
  | node level _ _ _ _ => i ≤ level

/-- The left operand of a node is no looser than the node, and its right operand is tighter. -/
def Graded : Joined α κ → Prop
  | operand _ => True
  | node level _ left _ right =>
    left.AtLeast level ∧ right.AtLeast (level + 1) ∧ left.Graded ∧ right.Graded

theorem AtLeast.mono {t : Joined α κ} {i j : Nat} (h : t.AtLeast j) (hij : i ≤ j) : t.AtLeast i := by
  cases t with
  | operand _ => trivial
  | node level _ _ _ _ => exact Nat.le_trans hij h

end Joined

namespace Rule

variable {α κ : Type}

/-- None of the operators stands behind the blanks at the cursor; the empty text never does. -/
def Absent (operators : List (String × κ)) (c : Cursor) : Prop :=
  ∀ entry ∈ operators, Lexeme.literal entry.1 c.skipBlank = none

/-- The operator at `c` is read: the first one that stands there in the order of level `i`, where
none of a tighter level does. -/
def Takes (levels : List (PrecedenceLevel κ)) (c : Cursor) (i : Nat) (kind : κ) (op : Token)
    (d : Cursor) : Prop :=
  ∃ level before text after, levels[i]? = some level ∧
    level.operators = before ++ (text, kind) :: after ∧ token text c = (.matched op, d) ∧
    Absent before c ∧ ∀ j tighter, i < j → levels[j]? = some tighter → Absent tighter.operators c

/-- The items are read one after the other, each from where the one before it ended. -/
inductive Consumes (operand : Rule α) (levels : List (PrecedenceLevel κ)) :
    Cursor → List (Item α κ) → Cursor → Prop
  | nil {c : Cursor} : Consumes operand levels c [] c
  | operand {c d e : Cursor} {a : α} {rest : List (Item α κ)} :
    operand c = (.matched a, d) → Consumes operand levels d rest e →
    Consumes operand levels c (.operand a :: rest) e
  | operator {c d e : Cursor} {i : Nat} {kind : κ} {op : Token} {rest : List (Item α κ)} :
    Takes levels c i kind op d → Consumes operand levels d rest e →
    Consumes operand levels c (.operator i kind op :: rest) e

/-- From `d` the cursor has moved over blanks at most. -/
def Rests (d c : Cursor) : Prop :=
  c = d ∨ c = d.skipBlank

section Rests

variable {c d e : Cursor} {operators : List (String × κ)}

theorem Rests.skipBlank_eq (h : Rests d c) : c.skipBlank = d.skipBlank := by
  rcases h with rfl | rfl
  · rfl
  · exact d.skipBlank_skipBlank

theorem Rests.trans (h : Rests d c) (h' : Rests c e) : Rests d e := by
  rcases h' with rfl | rfl
  · exact h
  · exact .inr h.skipBlank_eq

theorem Rests.absent (h : Rests d c) : Absent operators c ↔ Absent operators d := by
  rw [Absent, Absent, h.skipBlank_eq]

theorem Rests.source_eq (h : Rests d c) : c.source = d.source := by
  rcases h with rfl | rfl <;> rfl

/-- A lexeme is read alike before the blanks and behind them. -/
theorem Rests.token_eq (h : Rests d c) (text : String) : token text c = token text d := by
  have hsource := h.source_eq
  simp only [token, lexeme, Cursor.takeLexeme, Cursor.moveTo, h.skipBlank_eq, hsource]

end Rests

section Operators

variable {c c' : Cursor} {operators : List (String × κ)} {op : Token} {kind : κ}

theorem rests_of_token {text : String} (h : token text c = (.noMatch, c')) :
    Lexeme.literal text c.skipBlank = none ∧ c' = c.skipBlank := by
  obtain ⟨hnone, rfl⟩ := lexeme_eq_noMatch.mp h
  exact ⟨hnone, rfl⟩

/-- The first operator in the order of the list that stands at the cursor. -/
theorem operator_eq_matched (h : operator operators c = (.matched (op, kind), c')) :
    ∃ before text after, operators = before ++ (text, kind) :: after ∧
      token text c = (.matched op, c') ∧ Absent before c := by
  induction operators generalizing c with
  | nil => cases h
  | cons entry rest ih =>
      rcases orElse_eq_matched.mp h with hfirst | ⟨d, hnone, hrest⟩
      · obtain ⟨t, hmatch, heq⟩ := map_eq_matched.mp hfirst
        cases heq
        exact ⟨[], entry.1, rest, rfl, hmatch, nofun⟩
      · obtain ⟨hliteral, rfl⟩ := rests_of_token (map_eq_noMatch.mp hnone)
        have hrests : Rests c c.skipBlank := .inr rfl
        obtain ⟨before, text, after, rfl, hmatch, habsent⟩ := ih hrest
        refine ⟨entry :: before, text, after, rfl, (hrests.token_eq text).symm.trans hmatch, ?_⟩
        exact List.forall_mem_cons.mpr ⟨hliteral, hrests.absent.mp habsent⟩

theorem operator_eq_noMatch (h : operator operators c = (.noMatch, c')) :
    Absent operators c ∧ Rests c c' := by
  induction operators generalizing c with
  | nil =>
      cases h
      exact ⟨nofun, .inl rfl⟩
  | cons entry rest ih =>
      obtain ⟨d, hnone, hrest⟩ := orElse_eq_noMatch.mp h
      obtain ⟨hliteral, rfl⟩ := rests_of_token (map_eq_noMatch.mp hnone)
      have hrests : Rests c c.skipBlank := .inr rfl
      obtain ⟨habsent, hrests'⟩ := ih hrest
      exact ⟨List.forall_mem_cons.mpr ⟨hliteral, hrests.absent.mp habsent⟩, hrests.trans hrests'⟩

end Operators

variable {build : κ → α → Token → α → α} {operand : Rule α}
  {levels : List (PrecedenceLevel κ)} {c d e : Cursor} {xs ys : List (Item α κ)}

theorem Consumes.append (h : Consumes operand levels c xs d) (h' : Consumes operand levels d ys e) :
    Consumes operand levels c (xs ++ ys) e := by
  induction h with
  | nil => exact h'
  | operand hmatch _ ih => exact .operand hmatch (ih h')
  | operator htakes _ ih => exact .operator htakes (ih h')

/-- The tree `t` was read from `c` up to `d`. At `e`, with nothing but blanks between, no operator of
the levels from `i` on stands any more. -/
structure Reaped (operand : Rule α) (levels : List (PrecedenceLevel κ)) (i : Nat) (c : Cursor)
    (t : Joined α κ) (d e : Cursor) : Prop where
  graded : t.Graded
  consumes : Consumes operand levels c t.items d
  rests : Rests d e
  absent : ∀ j level, i ≤ j → levels[j]? = some level → Absent level.operators e

variable {i : Nat} {level : PrecedenceLevel κ} {t u : Joined α κ} {d' e₁ e₂ : Cursor} {kind : κ}
  {op : Token} {a : α}

/-- An operator and its right operand are added to a tree that stands before them. -/
theorem Reaped.extend (h : Reaped operand levels (i + 1) c t d e) (ht : t.AtLeast i)
    (hlevel : levels[i]? = some level) (hop : operator level.operators e = (.matched (op, kind), e₁))
    (hright : Reaped operand levels (i + 1) e₁ u d' e₂) (hu : u.AtLeast (i + 1)) :
    Reaped operand levels (i + 1) c (.node i kind t op u) d' e₂ where
  graded := ⟨ht, hu, h.graded, hright.graded⟩
  consumes := by
    obtain ⟨before, text, after, hsplit, htoken, hbefore⟩ := operator_eq_matched hop
    refine h.consumes.append (.operator ?_ hright.consumes)
    refine ⟨level, before, text, after, hlevel, hsplit, (h.rests.token_eq text).symm.trans htoken,
      h.rests.absent.mp hbefore, fun j tighter hj htighter => ?_⟩
    exact h.rests.absent.mp (h.absent j tighter hj htighter)
  rests := hright.rests
  absent := hright.absent

/-- Where no operator of its own level stands either, a tree is complete. -/
theorem Reaped.complete (h : Reaped operand levels (i + 1) c t d e)
    (hlevel : levels[i]? = some level) (hop : operator level.operators e = (.noMatch, e₁)) :
    Reaped operand levels i c t d e₁ where
  graded := h.graded
  consumes := h.consumes
  rests := h.rests.trans (operator_eq_noMatch hop).2
  absent := by
    obtain ⟨habsent, hrests⟩ := operator_eq_noMatch hop
    intro j other hj hother
    rw [hrests.absent]
    rcases Nat.eq_or_lt_of_le hj with rfl | hlt
    · obtain rfl := Option.some.inj (hlevel.symm.trans hother)
      exact habsent
    · exact h.absent j other hlt hother

/-- One level: whatever its operands are, they are joined from left to right. -/
theorem reaped_of_operandsOf {inner : Rule α} (hlevel : levels[i]? = some level)
    (hinner : ∀ c a e, inner c = (.matched a, e) → ∃ t d, t.value build = a ∧ t.AtLeast (i + 1) ∧
      Reaped operand levels (i + 1) c t d e)
    (h : Reaped operand levels (i + 1) c t d e) (ht : t.AtLeast i)
    (hmatch : operandsOf build inner level (t.value build) e = (.matched a, e₂)) :
    ∃ t d, t.value build = a ∧ t.AtLeast i ∧ Reaped operand levels i c t d e₂ := by
  have hunroll : ∀ n t d e, Reaped operand levels (i + 1) c t d e → t.AtLeast i →
      unroll (operandsStep build inner level) n (t.value build) e = (.matched a, e₂) →
        ∃ t d, t.value build = a ∧ t.AtLeast i ∧ Reaped operand levels i c t d e₂ := by
    intro n
    induction n with
    | zero => exact fun _ _ _ _ _ hmatch => nomatch hmatch
    | succ n ih =>
        intro t d e h ht hmatch
        obtain ⟨o, e₁, hop, hmatch⟩ := bind_eq_matched.mp hmatch
        cases o with
        | none =>
            cases hmatch
            exact ⟨t, d, rfl, ht, h.complete hlevel (optional_eq_none.mp hop)⟩
        | some entry =>
            obtain ⟨op, kind⟩ := entry
            obtain ⟨right, e₂, hright, hmatch⟩ := bind_eq_matched.mp hmatch
            obtain ⟨u, d', rfl, hu, hreaped⟩ := hinner _ _ _ (required_eq_matched.mp hright)
            have hextended := h.extend ht hlevel (optional_eq_some.mp hop) hreaped hu
            exact ih (.node i kind t op u) d' e₂ hextended (Nat.le_refl i) hmatch
  exact hunroll (e.remaining + 1) t d e h ht hmatch

/-- By induction on the levels that are left, the tightest one last. -/
theorem reaped_of_climb {rest : List (PrecedenceLevel κ)} (hrest : levels.drop i = rest)
    (h : climb build operand rest c = (.matched a, e)) :
    ∃ t d, t.value build = a ∧ t.AtLeast i ∧ Reaped operand levels i c t d e := by
  induction rest generalizing i c a e with
  | nil =>
      refine ⟨.operand a, e, rfl, trivial, trivial, .operand h .nil, .inl rfl, fun j level hj hlevel => ?_⟩
      have hlength := List.drop_eq_nil_iff.mp hrest
      rw [List.getElem?_eq_none (Nat.le_trans hlength hj)] at hlevel
      cases hlevel
  | cons level tighter ih =>
      have hlevel : levels[i]? = some level := by
        rw [← Nat.add_zero i, ← List.getElem?_drop, hrest]
        rfl
      have htighter : levels.drop (i + 1) = tighter := by
        rw [← List.drop_drop, hrest]
        rfl
      obtain ⟨first, e₁, hfirst, hmore⟩ := bind_eq_matched.mp h
      obtain ⟨t, d, rfl, ht, hreaped⟩ := ih htighter hfirst
      exact reaped_of_operandsOf hlevel (fun _ _ _ => ih htighter) hreaped
        (ht.mono (Nat.le_succ i)) hmore

/-- What a match of operands and operators is, for any table and any operand: a tree that keeps the
precedence and the order in which its parts were read, each operator taken by the tightest level
that had one there, and no operator of any level is left behind it. -/
theorem climb_groups (build : κ → α → Token → α → α) (operand : Rule α)
    (levels : List (PrecedenceLevel κ)) (c e : Cursor) (a : α)
    (h : climb build operand levels c = (.matched a, e)) :
    ∃ (t : Joined α κ) (d : Cursor), t.value build = a ∧ t.Graded ∧
      Consumes operand levels c t.items d ∧ Rests d e ∧
        ∀ level ∈ levels, Absent level.operators e := by
  obtain ⟨t, d, hvalue, -, hreaped⟩ := reaped_of_climb List.drop_zero h
  refine ⟨t, d, hvalue, hreaped.graded, hreaped.consumes, hreaped.rests, fun level hlevel => ?_⟩
  obtain ⟨j, hj⟩ := List.getElem?_of_mem hlevel
  exact hreaped.absent j level (Nat.zero_le j) hj

/-- An empty operator, one that two levels share, and one that begins another. -/
def overlappingLevels : List (PrecedenceLevel (Option Operation)) :=
  [⟨[("", none), ("<", some .less)]⟩, ⟨[("+", some .add), ("-", some .sub)]⟩,
    ⟨[("-", none), ("<-", none)]⟩]

theorem climb_groups_overlapping : ∃ (a : Phrase) (e : Cursor) (t : Joined Phrase (Option Operation))
    (d : Cursor), climb Phrase.binary RuleName.primary.rule overlappingLevels
        (.ofString "a <- b + c-1 < d - e,") = (.matched a, e) ∧
      t.value .binary = a ∧ t.Graded ∧
      Consumes RuleName.primary.rule overlappingLevels (.ofString "a <- b + c-1 < d - e,") t.items d ∧
      Rests d e ∧ ∀ level ∈ overlappingLevels, Absent level.operators e := by
  obtain ⟨a, e, hrun⟩ := exists_of_isMatched
    (r := climb Phrase.binary RuleName.primary.rule overlappingLevels)
    (c := .ofString "a <- b + c-1 < d - e,") (by decide +kernel)
  obtain ⟨t, d, hgroups⟩ := climb_groups _ _ _ _ _ _ hrun
  exact ⟨a, e, t, d, hrun, hgroups⟩

end Rule

end KestrelCompiler
