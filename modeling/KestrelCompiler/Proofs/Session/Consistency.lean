import KestrelCompiler.Session
import KestrelCompiler.Proofs.Grammar.Placement

/-!
Sessions on a source. Whatever is asked of a cursor, it stays at a point of its source and never
goes back, and every place in a reply is such a point as well.
-/

namespace KestrelCompiler

open Location

variable {source : List Char} {k : Nat} {c : Cursor}

namespace Reply

/-- Every location in an outcome is a point of the source, and every span a stretch of it: that of a
token, and that of a node at any depth. -/
def LocatedOutcome (source : List Char) : Outcome (Option Phrase) → Prop
  | .matched phrase? => ∀ phrase ∈ phrase?, ∀ s ∈ phrase.part.spans, ∃ i j, s.Covers source i j
  | .noMatch => True
  | .failed p => ∃ i, p.location.IsPoint source i

/-- The same for a reply, which never says that the cursor is outside of the source. -/
def Located (source : List Char) : Reply → Prop
  | location l => ∃ i, l.IsPoint source i
  | span s => ∃ i j, s.Covers source i j
  | token t => ∃ i j, t.span.Covers source i j
  | outcome o => LocatedOutcome source o
  | refused current wanted => (∃ i, current.IsPoint source i) ∧ ∃ i, wanted.IsPoint source i
  | outside => False
  | none | flag _ | character _ | text _ => True

theorem located_ofOption {α : Type} {reply : α → Reply} {o : Option α}
    (h : ∀ a ∈ o, (reply a).Located source) : (ofOption reply o).Located source := by
  cases o with
  | none => trivial
  | some a => exact h a rfl

end Reply

theorem Cursor.On.isPoint (h : c.On source k) : c.location.IsPoint source k := by
  rw [h.location]
  exact isPoint_point h.le

namespace Request

/-- A request to move names the point after a first part of the source. -/
def Allowed (source : List Char) : Request → Prop
  | commit l => ∃ before after, source = before ++ after ∧ l = Location.start.walk before
  | _ => True

theorem outcomeOf_located {r : Rule (Option Phrase)}
    (h : Rule.Adds source [] r fun o => o.elim [] Phrase.tokens) (hc : c.On source k) :
    ∃ j, k ≤ j ∧ (outcomeOf r c).2.On source j ∧ (outcomeOf r c).1.Located source := by
  obtain ⟨j, hkj, hj, hplaced⟩ := h k k c hc (Nat.le_refl k)
  refine ⟨j, hkj, hj, ?_⟩
  change Reply.LocatedOutcome source (r c).1
  cases hout : (r c).1 with
  | noMatch => trivial
  | failed p =>
      rw [hout] at hplaced
      obtain ⟨i, hi, hlocation⟩ := hplaced
      refine ⟨i, ?_⟩
      rw [hlocation]
      exact isPoint_point hi
  | matched phrase? =>
      rw [hout] at hplaced
      rintro phrase ⟨⟩ s hs
      obtain ⟨a, b, hab, hbj, rfl⟩ := phrase.spanned_part.between hplaced s hs
      exact ⟨a, b, Span.covers_between hab (Nat.le_trans hbj hj.le)⟩

theorem located_span {l : Lexeme} (hl : l.Within) (hc : c.On source k) :
    (Reply.ofOption .span (l c)).Located source := by
  refine Reply.located_ofOption fun span hspan => ?_
  obtain ⟨j, hkj, hj, rfl⟩ := hl.between hc hspan
  exact ⟨k, j, Span.covers_between hkj hj⟩

theorem takeLexeme_located {l : Lexeme} (hl : l.Within) (hc : c.On source k) :
    ∃ j, k ≤ j ∧ (c.takeLexeme l).2.On source j ∧
      (Reply.ofOption .token (c.takeLexeme l).1).Located source := by
  obtain ⟨j, hkj, hj, htoken⟩ := hc.takeLexeme hl
  refine ⟨j, hkj, hj, Reply.located_ofOption fun t ht => ?_⟩
  obtain ⟨i, -, hij, hspan⟩ := htoken t ht
  exact ⟨i, j, hspan ▸ Span.covers_between hij hj.le⟩

theorem takeChar_on (hc : c.On source k) : ∃ j, k ≤ j ∧ c.takeChar.2.On source j := by
  obtain ⟨i, hki, hi⟩ := hc.skipBlank
  rw [Cursor.takeChar]
  split
  · next ch hpeek =>
      obtain ⟨after, hrest⟩ := List.head?_eq_some_iff.mp
        ((Lexeme.peek?_eq_head? hi.nonneg).symm.trans hpeek)
      have hsplit : c.skipBlank.rest = [ch] ++ after := hrest
      obtain ⟨j, hij, hj, hwalk⟩ := hi.walk hsplit
      exact ⟨j, Nat.le_trans hki hij, hc.moveTo hj hwalk⟩
  · exact ⟨i, hki, hi⟩

/-- The cursor moves to a point only if this does not lead back. -/
theorem commit_located {l : Location} (hc : c.On source k) (h : (commit l).Allowed source) :
    ∃ j, k ≤ j ∧ ((commit l).perform c).2.On source j ∧
      ((commit l).perform c).1.Located source := by
  obtain ⟨before, after, hsource, rfl⟩ := h
  have hle : before.length ≤ source.length := by
    rw [hsource, List.length_append]
    omega
  have hpoint : start.walk before = point source before.length := by
    rw [point, hsource, List.take_left]
  rw [perform, Cursor.commit?]
  split
  · next c' hcommit =>
      split at hcommit
      · cases hcommit
      · next hindex =>
          cases hcommit
          refine ⟨before.length, ?_, hc.moveTo hle hpoint, trivial⟩
          rcases Nat.lt_or_ge before.length k with hlt | hge
          · rw [hpoint, hc.location] at hindex
            exact absurd (index_point_lt hlt hc.le) hindex
          · exact hge
  · exact ⟨k, Nat.le_refl k, hc, ⟨k, hc.isPoint⟩, before.length, hpoint ▸ isPoint_point hle⟩

/-- A request leads from a point of the source to a point of it, not back. -/
theorem run_located {request : Request} (hc : c.On source k) (h : request.Allowed source) :
    ∃ j, k ≤ j ∧ (request.run c).2.On source j ∧ (request.run c).1.Located source := by
  have hinside : c.isOutside = false := by
    rw [Cursor.isOutside, hc.offset, decide_eq_false_iff_not]
    omega
  rw [run, hinside, Bool.and_false, if_neg Bool.false_ne_true]
  obtain ⟨j, hkj, hj⟩ := hc.skipBlank
  cases request with
  | location => exact ⟨j, hkj, hj, j, hj.isPoint⟩
  | rest | hasMore | seesKeyword _ => exact ⟨j, hkj, hj, trivial⟩
  | peek => exact ⟨j, hkj, hj, Reply.located_ofOption fun _ _ => trivial⟩
  | peekChunk => exact ⟨j, hkj, hj, located_span (Lexeme.finds_run _).within hj⟩
  | peekRun accepts => exact ⟨j, hkj, hj, located_span (Lexeme.finds_run accepts).within hj⟩
  | peekLiteral text => exact ⟨j, hkj, hj, located_span (Lexeme.within_literal text) hj⟩
  | source => exact ⟨k, Nat.le_refl k, hc, trivial⟩
  | charAt _ | textFrom _ | textOf _ =>
      exact ⟨k, Nat.le_refl k, hc, Reply.located_ofOption fun _ _ => trivial⟩
  | commit l => exact commit_located hc h
  | advance =>
      obtain ⟨m, hkm, hm⟩ := takeChar_on hc
      exact ⟨m, hkm, hm, Reply.located_ofOption fun _ _ => trivial⟩
  | takeRun accepts => exact takeLexeme_located (Lexeme.finds_run accepts).within hc
  | takeLiteral text => exact takeLexeme_located (Lexeme.within_literal text) hc
  | takeKeyword text => exact takeLexeme_located (Lexeme.within_keyword text) hc
  | expect text =>
      exact outcomeOf_located (Rule.adds_map (Rule.adds_expect text) fun _ => rfl) hc
  | rule r => exact outcomeOf_located (Rule.adds_map (Rule.adds_rule r) fun _ => rfl) hc
  | required r message =>
      exact outcomeOf_located
        (Rule.adds_map (Rule.adds_required (Rule.adds_rule r) _) fun _ => rfl) hc
  | optional r => exact outcomeOf_located (Rule.adds_optional (Rule.adds_rule r)) hc
  | binary levels operand =>
      exact outcomeOf_located (Rule.adds_map
        (Rule.adds_climb (Rule.adds_rule operand) Phrase.tokens_binary levels) fun _ => rfl) hc

end Request

namespace Cursor

theorem session_cons (c : Cursor) (request : Request) (rest : List Request) :
    c.session (request :: rest) = request.run c :: (request.run c).2.session rest := rfl

theorem session_on {requests : List Request} (hc : c.On source k)
    (h : ∀ request ∈ requests, request.Allowed source) :
    (∀ entry ∈ c.session requests, (∃ j, k ≤ j ∧ entry.2.On source j) ∧
      entry.1.Located source) ∧
    ((c.session requests).map (·.2.location.offset)).Pairwise (· ≤ ·) := by
  induction requests generalizing c k with
  | nil =>
      rw [session]
      exact ⟨List.forall_mem_nil _, List.Pairwise.nil⟩
  | cons request rest ih =>
      obtain ⟨hrequest, hrest⟩ := List.forall_mem_cons.mp h
      obtain ⟨j, hkj, hj, hlocated⟩ := Request.run_located hc hrequest
      obtain ⟨hentries, hpairwise⟩ := ih hj hrest
      rw [session_cons, List.map_cons]
      refine ⟨List.forall_mem_cons.mpr ⟨⟨⟨j, hkj, hj⟩, hlocated⟩, fun entry hentry => ?_⟩,
        .cons ?_ hpairwise⟩
      · obtain ⟨⟨m, hjm, hm⟩, hentry⟩ := hentries entry hentry
        exact ⟨⟨m, Nat.le_trans hkj hjm, hm⟩, hentry⟩
      · intro offset hoffset
        obtain ⟨entry, hentry, rfl⟩ := List.mem_map.mp hoffset
        obtain ⟨⟨m, hjm, hm⟩, -⟩ := hentries entry hentry
        rw [hj.offset, hm.offset]
        exact Int.ofNat_le.mpr hjm

/-- Over a whole session the cursor stays at points of the source, its offset never decreases, and
every location and span in a reply belongs to the source. -/
theorem session_consistent {source : String} {requests : List Request}
    (h : ∀ request ∈ requests, request.Allowed source.toList) :
    (∀ entry ∈ (ofString source).session requests,
      (∃ k, entry.2.location.IsPoint source.toList k) ∧ entry.1.Located source.toList) ∧
    (((ofString source).session requests).map (·.2.location.offset)).Pairwise (· ≤ ·) := by
  obtain ⟨hentries, hpairwise⟩ := session_on (.ofString source) h
  refine ⟨fun entry hentry => ?_, hpairwise⟩
  obtain ⟨⟨j, -, hj⟩, hlocated⟩ := hentries entry hentry
  exact ⟨⟨j, hj.isPoint⟩, hlocated⟩

/-- The cursor moves past a line feed and a character of two bytes before a rule fails. -/
theorem session_consistent_commit :
    (∀ request ∈ [Request.commit (Location.start.walk ['é', '\n']), .rule .signature],
      request.Allowed "é\n(x".toList) ∧
    ((((ofString "é\n(x").session
      [.commit (Location.start.walk ['é', '\n']), .rule .signature]).map
        (·.2.location.offset)).Pairwise (· ≤ ·)) := by
  have h : ∀ request ∈ [Request.commit (Location.start.walk ['é', '\n']), .rule .signature],
      request.Allowed "é\n(x".toList := by
    simp only [List.forall_mem_cons]
    exact ⟨⟨['é', '\n'], ['(', 'x'], rfl, rfl⟩, trivial, List.forall_mem_nil _⟩
  exact ⟨h, (session_consistent h).2⟩

end Cursor

end KestrelCompiler
