import KestrelCompiler.Proofs.Reading.Point
import KestrelCompiler.Proofs.Tree.Part

/-!
Order in a tree. Where the lexemes of a tree follow one another in the source, the spans of its
nodes are stretches of the source, each inside the node around it and before the next one.
-/

namespace KestrelCompiler

open Location

namespace Token

/-- The tokens are stretches of the source that follow one another, from offset `i` to `j`. -/
def InOrder (source : List Char) : Nat → List Token → Nat → Prop
  | i, [], j => i ≤ j
  | i, t :: rest, j => ∃ a b, i ≤ a ∧ a ≤ b ∧ t.span = .between source a b ∧ InOrder source b rest j

variable {source : List Char} {i j k : Nat} {tokens others : List Token} {s : Span}

theorem InOrder.le (h : InOrder source i tokens j) : i ≤ j := by
  induction tokens generalizing i with
  | nil => exact h
  | cons t rest ih =>
      obtain ⟨a, b, hia, hab, -, hrest⟩ := h
      have := ih hrest
      omega

theorem InOrder.mono_left (h : InOrder source j tokens k) (hle : i ≤ j) :
    InOrder source i tokens k := by
  cases tokens with
  | nil => exact Nat.le_trans hle h
  | cons t rest =>
      obtain ⟨a, b, hja, hrest⟩ := h
      exact ⟨a, b, Nat.le_trans hle hja, hrest⟩

theorem inOrder_append : InOrder source i (tokens ++ others) k ↔
    ∃ j, InOrder source i tokens j ∧ InOrder source j others k := by
  induction tokens generalizing i with
  | nil =>
      constructor
      · exact fun h => ⟨i, Nat.le_refl i, h⟩
      · rintro ⟨j, hij, h⟩
        exact h.mono_left hij
  | cons t rest ih =>
      constructor
      · rintro ⟨a, b, hia, hab, hspan, hrest⟩
        obtain ⟨j, hrest, hothers⟩ := ih.mp hrest
        exact ⟨j, ⟨a, b, hia, hab, hspan, hrest⟩, hothers⟩
      · rintro ⟨j, ⟨a, b, hia, hab, hspan, hrest⟩, hothers⟩
        exact ⟨a, b, hia, hab, hspan, ih.mpr ⟨j, hrest, hothers⟩⟩

theorem InOrder.append (h : InOrder source i tokens j) (h' : InOrder source j others k) :
    InOrder source i (tokens ++ others) k :=
  inOrder_append.mpr ⟨j, h, h'⟩

theorem InOrder.mono_right (h : InOrder source i tokens j) (hle : j ≤ k) :
    InOrder source i tokens k := by
  have happend : InOrder source i (tokens ++ []) k := h.append hle
  rwa [List.append_nil] at happend

theorem InOrder.pairwise (h : InOrder source i tokens j) (hj : j ≤ source.length) :
    tokens.Pairwise fun t u => t.span.stop ≤ u.span.start := by
  induction tokens generalizing i with
  | nil => exact .nil
  | cons t rest ih =>
      obtain ⟨a, b, -, -, hspan, hrest⟩ := h
      refine .cons (fun u hu => ?_) (ih hrest)
      obtain ⟨front, back, rfl⟩ := List.append_of_mem hu
      obtain ⟨k, hfront, c, d, hkc, hcd, hu, hback⟩ := inOrder_append.mp hrest
      have := hfront.le
      have := hback.le
      rw [hspan, hu]
      exact point_le (by omega) (by omega)

/-- The hull is the smallest stretch in which the tokens follow one another. -/
theorem InOrder.hull (h : InOrder source i tokens j) (hs : hull? tokens = some s) :
    ∃ a b, i ≤ a ∧ a ≤ b ∧ b ≤ j ∧ s = .between source a b ∧ InOrder source a tokens b := by
  induction tokens generalizing i s with
  | nil => cases hs
  | cons t rest ih =>
      obtain ⟨a, b, hia, hab, hspan, hrest⟩ := h
      cases rest with
      | nil =>
          rw [hull?_singleton, Option.some.injEq] at hs
          exact ⟨a, b, hia, hab, hrest, hs.symm.trans hspan, a, b, Nat.le_refl a, hab, hspan,
            Nat.le_refl b⟩
      | cons u more =>
          rw [hull?_cons_cons, Option.map_eq_some_iff] at hs
          obtain ⟨inner, hinner, rfl⟩ := hs
          obtain ⟨a', b', hba', hab', hbj, rfl, hinside⟩ := ih hrest hinner
          refine ⟨a, b', hia, by omega, hbj, ?_, a, b, Nat.le_refl a, hab, hspan,
            hinside.mono_left hba'⟩
          rw [hspan]
          rfl

end Token

namespace Part

open Token

variable {source : List Char} {i j : Nat} {p : Part} {parts : List Part}

/-- The parts of a node take up stretches of their own, one after the other. -/
theorem inOrder_of_mem (h : InOrder source i (tokensOf parts) j) (hp : p ∈ parts) :
    ∃ a b, i ≤ a ∧ b ≤ j ∧ InOrder source a p.tokens b := by
  induction parts generalizing i with
  | nil => cases hp
  | cons q rest ih =>
      rw [tokensOf_cons] at h
      obtain ⟨k, hfirst, hrest⟩ := inOrder_append.mp h
      rcases List.mem_cons.mp hp with rfl | hp
      · exact ⟨i, k, Nat.le_refl i, hrest.le, hfirst⟩
      · obtain ⟨a, b, hka, hbj, hinside⟩ := ih hrest hp
        exact ⟨a, b, Nat.le_trans hfirst.le hka, hbj, hinside⟩

theorem Spanned.extent_between (h : p.Spanned) (horder : InOrder source i p.tokens j) :
    ∀ s ∈ p.extent?, ∃ a b, i ≤ a ∧ a ≤ b ∧ b ≤ j ∧ s = .between source a b := by
  intro s hs
  obtain ⟨a, b, hia, hab, hbj, hspan, -⟩ := horder.hull (h.extent?_eq s hs)
  exact ⟨a, b, hia, hab, hbj, hspan⟩

theorem pairwise_extents (h : ∀ p ∈ parts, p.Spanned) (horder : InOrder source i (tokensOf parts) j)
    (hj : j ≤ source.length) :
    parts.Pairwise fun a b => ∀ s ∈ a.extent?, ∀ t ∈ b.extent?, s.stop ≤ t.start := by
  induction parts generalizing i with
  | nil => exact .nil
  | cons p rest ih =>
      rw [tokensOf_cons] at horder
      obtain ⟨k, hfirst, hrest⟩ := inOrder_append.mp horder
      refine .cons ?_ (ih (fun q hq => h q (List.mem_cons_of_mem p hq)) hrest)
      intro q hq s hs t ht
      obtain ⟨a, b, -, -, hbk, rfl⟩ := (h p List.mem_cons_self).extent_between hfirst s hs
      obtain ⟨a', b', hka, hbj, hinside⟩ := inOrder_of_mem hrest hq
      obtain ⟨c, d, hac, hcd, hdb, rfl⟩ :=
        (h q (List.mem_cons_of_mem p hq)).extent_between hinside t ht
      exact point_le (by omega) (by omega)

theorem Spanned.nested (h : p.Spanned) (horder : InOrder source i p.tokens j)
    (hj : j ≤ source.length) : p.Nested := by
  induction h generalizing i j with
  | leaf => exact .leaf
  | @node span? parts hown hparts ih =>
      refine .node ?_ (pairwise_extents hparts horder hj) fun p hp => ?_
      · intro outer houter p hp inner hinner
        obtain ⟨a, b, -, -, hbj, rfl, hinside⟩ :=
          horder.hull ((Spanned.node hown hparts).extent?_eq outer houter)
        obtain ⟨a', b', haa', hbb', hpart⟩ := inOrder_of_mem hinside hp
        obtain ⟨c, d, hac, hcd, hdb, rfl⟩ := (hparts p hp).extent_between hpart inner hinner
        exact ⟨point_le (by omega) (by omega), point_le (by omega) (by omega)⟩
      · obtain ⟨a, b, -, hbj, hpart⟩ := inOrder_of_mem horder hp
        exact ih p hp hpart (Nat.le_trans hbj hj)

theorem mem_spansOf {s : Span} : s ∈ spansOf parts ↔ ∃ p ∈ parts, s ∈ p.spans := by
  induction parts with
  | nil => simp [spansOf]
  | cons p rest ih => simp [spansOf, ih]

/-- All spans in a tree are stretches of the source. -/
theorem Spanned.between (h : p.Spanned) (horder : InOrder source i p.tokens j) :
    ∀ s ∈ p.spans, ∃ a b, a ≤ b ∧ b ≤ j ∧ s = .between source a b := by
  induction h generalizing i j with
  | leaf =>
      intro s hs
      obtain ⟨a, b, -, hab, hspan, hbj⟩ := horder
      rw [List.mem_singleton.mp hs]
      exact ⟨a, b, hab, hbj, hspan⟩
  | @node span? parts hown hparts ih =>
      intro s hs
      rcases List.mem_append.mp hs with hs | hs
      · obtain ⟨a, b, -, hab, hbj, hspan, -⟩ := horder.hull (hown s (Option.mem_toList.mp hs))
        exact ⟨a, b, hab, hbj, hspan⟩
      · obtain ⟨p, hp, hs⟩ := mem_spansOf.mp hs
        obtain ⟨a, b, -, hbj, hpart⟩ := inOrder_of_mem horder hp
        obtain ⟨c, d, hcd, hdb, hspan⟩ := ih p hp hpart s hs
        exact ⟨c, d, hcd, Nat.le_trans hdb hbj, hspan⟩

end Part

end KestrelCompiler
