import KestrelCompiler.Proofs.Grammar.Named
import KestrelCompiler.Proofs.Grammar.Placement
import KestrelCompiler.Proofs.Grammar.Unambiguity
import KestrelCompiler.Proofs.Reread.Derived

/-!
The text under the span of a node is read to this node again. A node ends where nothing could have
prolonged it within its own text, so that its rule reads this text to the end, whatever stood around
the node in the source.
-/

namespace KestrelCompiler

open Rule Position Spaced KestrelCompiler.Derivation

namespace Spaced

/-- Lexemes moved to the start, with nothing after them. -/
theorem relays_since (origin : Location) (tail text : List Char) (xs : List Spaced) :
    Relays ⟨Token.since origin, id⟩ tail [] (origin.walk text) (Location.start.walk text) xs xs := by
  induction xs generalizing text with
  | nil => exact .nil
  | cons x rest ih =>
      have hend : Text.Agrees tail [] := fun c hc => by cases hc
      refine .cons (.inl ⟨rfl, fun t ht => ?_⟩) (fun _ => rfl) (hend.append (textOf rest)) ?_
      · simp only [Token.since, ht, Spaced.span, ← Location.walk_append, Location.since_walk, id]
      · rw [← Location.walk_append, ← Location.walk_append]
        exact ih (text ++ x.text)

end Spaced

namespace Derivation

variable {p q : Position} {node : Node} {spans : List Span}

/-- What is derived is derived from its text alone as well, with the places counted from there. -/
theorem NodeAt.alone (h : NodeAt p node spans q) :
    ∃ text spans', p.skip.rest = text ++ q.rest ∧ q.location = p.skip.location.walk text ∧
      NodeAt ⟨.start, text⟩ (node.since p.skip.location) spans' ⟨Location.start.walk text, []⟩ := by
  obtain ⟨xs, hleads, -, hcarried⟩ :=
    carried_node (v := ⟨Token.since p.skip.location, id⟩) h.skip
  obtain ⟨node', hnode', hlook⟩ := hcarried xs ⟨.start, textOf xs⟩
    ⟨Location.start.walk (textOf xs), []⟩ ⟨(List.append_nil _).symm, rfl⟩
    (relays_since p.skip.location q.rest [] xs)
  obtain rfl : node' = node.since p.skip.location := node'.mapTokens_id.symm.trans hlook
  exact ⟨textOf xs, _, hleads.rest, hleads.location, hnode'⟩

theorem followsExpr_of_end (hq : q.next? = none) : FollowsExpr q := by
  rw [FollowsExpr, NoneOf, NoneOf, hq]
  decide

/-- At the end of a text nothing can prolong a node. -/
theorem NodeAt.gives (h : NodeAt p node spans q) (hq : q.next? = none) :
    Gives node.ruleName.rule p node.phrase q := by
  cases node with
  | type t => exact gives_map (gives_type h fun c hc => by simp [hq] at hc) _
  | signature s => exact gives_map (gives_signature h fun c hc => by simp [hq] at hc) _
  | expression e => exact gives_map (gives_expression h (followsExpr_of_end hq)) _
  | block b => exact gives_map (gives_block h) _
  | directive name bang args =>
      cases h with
      | directive hname hbang hargs =>
          exact gives_map (gives_directive hname hbang hargs (by simp [hq])) _

end Derivation

theorem Node.span?_phrase (node : Node) : node.phrase.span? = some node.span := by
  cases node <;> rfl

theorem Node.ruleName_ne_program (node : Node) : node.ruleName ≠ .program := by
  cases node <;> nofun

/-- The text between two points of a source. -/
theorem Cursor.textOf?_walk {source before text after : List Char}
    (hsource : source = before ++ (text ++ after)) (hne : text ≠ []) :
    (Cursor.mk source .start).textOf?
      ⟨Location.start.walk before, (Location.start.walk before).walk text⟩ = some text := by
  have hpos : 0 < text.length := List.length_pos_iff.mpr hne
  have hlength := congrArg List.length hsource
  have hstart : 0 ≤ (Location.start.walk before).offset := Cursor.nonneg_walk (Int.le_refl 0) before
  have hrest := @Cursor.rest_moveTo_walk ⟨source, .start⟩ (Int.le_refl 0) before (text ++ after) hsource
  have hslice := @Cursor.slice_walk ⟨source, Location.start.walk before⟩ hstart text after hrest
  simp only [List.length_append] at hlength
  rw [Cursor.textOf?, if_pos, hslice]
  simp only [Location.offset_walk, Location.start, Bool.and_eq_true, decide_eq_true_eq]
  omega

/-- A rule that gives something that ends with the text has read this text to its end. -/
theorem RuleName.stops_at_end {r : RuleName} {text : List Char} {phrase : Phrase} {s : Span}
    {c : Cursor} (h : r.rule ⟨text, .start⟩ = (.matched phrase, c)) (hspan : phrase.span? = some s)
    (hstop : s.stop = Location.start.walk text) : c = ⟨text, Location.start.walk text⟩ := by
  have hstart : Cursor.On text 0 ⟨text, .start⟩ := ⟨Nat.zero_le _, rfl, rfl⟩
  obtain ⟨j, -, hj, hplaced⟩ := @adds_rule text r 0 0 _ hstart (Nat.le_refl 0)
  rw [h] at hj hplaced
  obtain ⟨a, b, -, hab, hbj, rfl⟩ :=
    phrase.spanned_part.extent_between hplaced _ (Phrase.extent?_part hspan)
  have hb : b = text.length := by
    have hoffset := congrArg Location.offset hstop
    rw [Span.offset_stop_between (Nat.le_trans hbj hj.le), Location.offset_walk] at hoffset
    simp only [Location.start] at hoffset
    omega
  have hend : j = text.length := Nat.le_antisymm hj.le (hb ▸ hbj)
  obtain ⟨source, location⟩ := c
  obtain rfl : source = text := hj.source
  have hlocation : location = Location.point source j := hj.location
  rw [hlocation, hend, Location.point, List.take_length]

namespace Derivation

variable {p m q : Position} {node : Node} {spans : List Span} {source before : List Char}

theorem NodeAt.rereads (h : NodeAt m node spans q) (hm : Reaches ⟨.start, source⟩ m) :
    node.Rereads source := by
  obtain ⟨text, spans', hrest, hlocation, halone⟩ := h.alone
  obtain ⟨before, hsource, hskip⟩ := hm.trans (reaches_skip m)
  rw [hrest] at hsource
  have hspan : node.span = ⟨m.skip.location, m.skip.location.walk text⟩ := by
    rw [h.span_eq, hlocation]
  -- the text alone is read to the node that was shifted back
  have hat : Cursor.At ⟨text, .start⟩ ⟨.start, text⟩ := .self (Int.le_refl 0)
  obtain ⟨c, hmatch, -⟩ := halone.gives rfl _ hat
  have hname : (node.since m.skip.location).ruleName = node.ruleName := by
    cases node <;> rfl
  rw [hname] at hmatch
  have hne : text ≠ [] := by
    rintro rfl
    have hlt := RuleName.advances_rule node.ruleName_ne_program _ _ _ hmatch
    exact absurd hlt (by simp [Cursor.remaining, Location.start])
  have hend := RuleName.stops_at_end hmatch (Node.span?_phrase _)
    (congrArg Span.stop halone.span_eq)
  refine ⟨text, ?_, ?_⟩
  · rw [hspan, hskip]
    exact Cursor.textOf?_walk hsource hne
  · rw [hspan, hmatch, hend]

/-- Each of the nodes held by a part of the source is read again from its own text. -/
theorem Holds.rereads {nodes : List Node} (h : Holds p nodes) (hp : Reaches ⟨.start, source⟩ p) :
    ∀ node ∈ nodes, node.Rereads source := by
  intro node hnode
  obtain ⟨m, spans, q, hreaches, hat⟩ := h node hnode
  exact hat.rereads (hp.trans hreaches)

end Derivation

section Rules

variable {α : Type} {r : Rule α} {c c' : Cursor} {p : Position} {phrase : Phrase}

theorem holds_of_sound {derives : Position → α → List Span → Position → Prop} {wrap : α → Phrase}
    (hr : Sound r derives) (hc : c.At p) (h : (wrap <$> r) c = (.matched phrase, c'))
    (hholds : ∀ p x spans q, derives p x spans q → Holds p (wrap x).nodes) :
    Holds p phrase.nodes := by
  obtain ⟨x, hmatch, rfl⟩ := map_eq_matched.mp h
  obtain ⟨spans, q, hderives, -⟩ := hr c c' p x hc hmatch
  exact hholds p x spans q hderives

theorem sound_program : Sound Rule.program fun p program spans q =>
    DeclarationsAt p program.declarations spans q := by
  intro c c' p program hc h
  obtain ⟨decls, hmatch, rfl⟩ := map_eq_matched.mp h
  obtain ⟨spans, q, ⟨_, rfl, hderives, -⟩, hq⟩ := sound_declarations [] c c' p decls hc hmatch
  exact ⟨spans, q, hderives, hq⟩

/-- Whatever a rule gives holds nodes that are derived in the text where it started. -/
theorem holds_rule {r : RuleName} (hc : c.At p) (h : r.rule c = (.matched phrase, c')) :
    Holds p phrase.nodes := by
  have hstatement := sound_statementOf sound_block steady_block
  have hconditional := sound_conditionalOf sound_block
  cases r with
  | program => exact holds_of_sound sound_program hc h fun _ _ _ _ h => h.holds
  | declaration => exact holds_of_sound sound_declaration hc h fun _ _ _ _ h => h.holds
  | type => exact holds_of_sound sound_type hc h fun _ _ _ _ h => h.holds
  | signature => exact holds_of_sound sound_signature hc h fun _ _ _ _ h => h.holds
  | statement => exact holds_of_sound hstatement hc h fun _ _ _ _ h => h.holds
  | conditional => exact holds_of_sound hconditional hc h fun _ _ _ _ h => h.holds
  | returned => exact holds_of_sound sound_returned hc h fun _ _ _ _ h => h.holds
  | directive => exact holds_of_sound sound_directive hc h fun _ _ _ _ h => h.holds
  | block => exact holds_of_sound sound_block hc h fun _ _ _ _ h => h.holds
  | expression => exact holds_of_sound sound_expression hc h fun _ _ _ _ h => h.holds.1
  | primary => exact holds_of_sound sound_primary hc h fun _ _ _ _ h => h.holds.1
  | stringLiteral =>
      obtain ⟨_, _, rfl⟩ := map_eq_matched.mp h
      exact holds_nil p

end Rules

theorem Cursor.On.reaches {source : List Char} {k : Nat} {c : Cursor} (h : c.On source k) :
    Reaches ⟨.start, source⟩ c.position := by
  refine ⟨source.take k, ?_, h.location⟩
  rw [Cursor.position, h.rest, List.take_append_drop]

/-- The span of a node is its own source. Cut out of a source that is read, by the rule for programs
or by any rule from any point, the text under the span is read to the same node again, with its
places shifted back by the start of the span, and nothing of it is left. -/
theorem nodes_reread (source : String) :
    (∀ program, Program.parse source = .ok program →
      ∀ node ∈ program.nodes, node.Rereads source.toList) ∧
    ∀ r k c c' phrase, c.On source.toList k → RuleName.rule r c = (.matched phrase, c') →
      ∀ node ∈ phrase.nodes, node.Rereads source.toList := by
  have hrules : ∀ r k c c' phrase, c.On source.toList k →
      RuleName.rule r c = (.matched phrase, c') →
        ∀ node ∈ phrase.nodes, node.Rereads source.toList := by
    intro r k c c' phrase hc h
    exact (holds_rule (.self hc.nonneg) h).rereads hc.reaches
  refine ⟨fun program h => ?_, hrules⟩
  obtain ⟨c, hmatch⟩ := Program.parse_eq_ok.mp h
  refine hrules .program 0 (.ofString source) c (.program program) (.ofString source) ?_
  exact map_eq_matched.mpr ⟨program, hmatch, rfl⟩

/-- Every kind of node occurs, and operands of both levels. -/
def nestedSource : String :=
  "f(int**, (bool) char,) int \x7b args! a, b if 1 - 2 + a < b \x7b : \"\\n\" \x7d \x7d"

theorem nodes_reread_nested : ∃ program, Program.parse nestedSource = .ok program ∧
    program.nodes.length = 20 ∧ ∀ node ∈ program.nodes, node.Rereads nestedSource.toList := by
  have hcount : (Program.parse nestedSource).toOption.map (·.nodes.length) = some 20 := by
    decide +kernel
  cases hparse : Program.parse nestedSource with
  | ok program =>
      rw [hparse] at hcount
      exact ⟨program, rfl, Option.some.inj hcount, (nodes_reread nestedSource).1 program hparse⟩
  | error problem =>
      rw [hparse] at hcount
      cases hcount

end KestrelCompiler
