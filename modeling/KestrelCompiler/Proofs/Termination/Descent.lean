import Mathlib.Data.List.Chain
import Mathlib.Logic.Relation
import KestrelCompiler.Proofs.Reading.Progress

/-!
Descent. A rule that calls others from cursors that it has come to stops because each call stands
further on in the source, or at the same cursor with a lower rank.
-/

namespace KestrelCompiler

open Relation

namespace Cursor

variable {c d e : Cursor}

/-- `d` is the same cursor, or it stands further on. -/
def Onward (c d : Cursor) : Prop :=
  d = c ∨ c.Precedes d

theorem Onward.trans (h : c.Onward d) (h' : d.Onward e) : c.Onward e := by
  rcases h with rfl | h
  · exact h'
  · rcases h' with rfl | h'
    · exact .inr h
    · exact .inr (h.trans_leadsTo h'.leadsTo)

theorem Onward.leadsTo (h : c.Onward d) : c.LeadsTo d := by
  rcases h with rfl | h
  · exact .refl d
  · exact h.leadsTo

theorem onward_of_reflTransGen {R : Cursor → Cursor → Prop} (hR : ∀ c d, R c d → c.Precedes d)
    (h : ReflTransGen R c d) : c.Onward d := by
  induction h with
  | refl => exact .inl rfl
  | tail _ hstep ih => exact ih.trans (.inr (hR _ _ hstep))

/-- Where blanks are skipped there is something to skip, or the cursor stays. -/
theorem onward_skipBlank (c : Cursor) : c.Onward c.skipBlank := by
  have hoffset : c.skipBlank.location.offset =
      c.location.offset + (c.ahead.takeWhile Text.isBlank).length :=
    Location.offset_walk _ _
  cases hblanks : c.ahead.takeWhile Text.isBlank with
  | nil =>
      rw [skipBlank, hblanks]
      exact .inl rfl
  | cons b blanks =>
      have hinside : c.location.offset < c.source.length := by
        refine Int.lt_of_not_ge fun hend => ?_
        have hahead : c.ahead = [] := by
          rw [ahead, if_pos (by omega), List.drop_of_length_le (by omega)]
        rw [hahead] at hblanks
        cases hblanks
      rw [hblanks, List.length_cons] at hoffset
      refine .inr (LeadsTo.precedes ⟨rfl, by omega⟩ ?_)
      change (c.source.length - c.skipBlank.location.offset).toNat <
        (c.source.length - c.location.offset).toNat
      omega

end Cursor

section Descends

variable {ι : Type} {calls : ι × Cursor → ι × Cursor → Prop} {rank : ι → Nat}

/-- Calls that stop: each of them stands further on or at the same cursor, a chain of calls at one
cursor is no longer than a bound tells, and no chain at all goes on for ever. -/
structure Descends (calls : ι × Cursor → ι × Cursor → Prop) (bound : ι → Nat) : Prop where
  onward : ∀ i c j d, calls (i, c) (j, d) → c.Onward d
  chain : ∀ c i called, (i :: called).IsChain (fun j k => calls (j, c) (k, c)) →
    called.length ≤ bound i
  wellFounded : WellFounded fun callee caller => calls caller callee

theorem length_le_of_isChain {R : ι → ι → Prop} (hrank : ∀ i j, R i j → rank j < rank i) {i : ι}
    {called : List ι} (h : (i :: called).IsChain R) : called.length ≤ rank i := by
  induction called generalizing i with
  | nil => exact Nat.zero_le _
  | cons j called ih =>
      obtain ⟨hcall, hrest⟩ := List.isChain_cons_cons.mp h
      exact Nat.lt_of_le_of_lt (ih hrest) (hrank i j hcall)

/-- The calls go down in what is left to read, and at one cursor in their rank. -/
theorem descends_of_rank
    (h : ∀ i c j d, calls (i, c) (j, d) → c.Precedes d ∨ d = c ∧ rank j < rank i) :
    Descends calls rank where
  onward i c j d hcall := (h i c j d hcall).symm.imp And.left id
  chain c i called := by
    refine length_le_of_isChain fun j k hcall => ?_
    rcases h j c k c hcall with hpast | ⟨-, hlt⟩
    · exact absurd hpast.remaining (Nat.lt_irrefl _)
    · exact hlt
  wellFounded := by
    refine Subrelation.wf ?_ (InvImage.wf (fun call : ι × Cursor => (call.2.remaining, rank call.1))
      (Prod.lex ⟨_, Nat.lt_wfRel.wf⟩ ⟨_, Nat.lt_wfRel.wf⟩).wf)
    rintro ⟨j, d⟩ ⟨i, c⟩ hcall
    rcases h i c j d hcall with hpast | ⟨rfl, hlt⟩
    · exact Prod.Lex.left _ _ hpast.remaining
    · exact Prod.Lex.right _ hlt

theorem Descends.mono {bound : ι → Nat} (h : Descends calls rank) (hle : ∀ i, rank i ≤ bound i) :
    Descends calls bound where
  onward := h.onward
  chain c i called hchain := Nat.le_trans (h.chain c i called hchain) (hle i)
  wellFounded := h.wellFounded

end Descends

end KestrelCompiler
