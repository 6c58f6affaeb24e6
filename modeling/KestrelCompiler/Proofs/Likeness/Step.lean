import KestrelCompiler.Lowering

/-!
Runs of lowering that are alike. Either both come to the same result, or both stop with faults that
correspond; what was built on the way is the same, up to the events.
-/

namespace KestrelCompiler

open Ir (Ty Value)

/-- Faults that correspond, or the same refusal. -/
inductive SameStop (E : LoweringFault → LoweringFault → Prop) : LoweringStop → LoweringStop → Prop
  | fault {f f' : LoweringFault} : E f f' → SameStop E f f'
  | refused (r : Refusal) : SameStop E (.refused r) (.refused r)

/-- The same result, or stops that correspond. -/
inductive SameResult (E : LoweringFault → LoweringFault → Prop) {α : Type} :
    Except LoweringStop α → Except LoweringStop α → Prop
  | stop {stop stop' : LoweringStop} : SameStop E stop stop' →
    SameResult E (.error stop) (.error stop')
  | go (a : α) : SameResult E (.ok a) (.ok a)

/-- The same build after other events. -/
def Build.noting (b : Build) (events : List Event) : Build :=
  { b with events }

inductive Alike (E : LoweringFault → LoweringFault → Prop) {α : Type} :
    Except LoweringStop α × Build → Except LoweringStop α × Build → Prop
  | mk {r r' : Except LoweringStop α} (b : Build) (events : List Event) :
    SameResult E r r' → Alike E (r, b) (r', b.noting events)

/-- All faults at the one location correspond to those at the other. -/
def SameAt (E : LoweringFault → LoweringFault → Prop) (l l' : Location) : Prop :=
  ∀ error, E ⟨error, l⟩ ⟨error, l'⟩

variable {α β : Type} {E : LoweringFault → LoweringFault → Prop}

theorem SameStop.refl (hE : ∀ f, E f f) (stop : LoweringStop) : SameStop E stop stop := by
  cases stop with
  | fault f => exact .fault (hE f)
  | refused r => exact .refused r

theorem SameStop.eq {stop stop' : LoweringStop} (h : SameStop Eq stop stop') : stop' = stop := by
  cases h with
  | fault h => rw [h]
  | refused r => rfl

namespace SameResult

theorem refl (hE : ∀ f, E f f) (r : Except LoweringStop α) : SameResult E r r := by
  cases r with
  | error stop => exact .stop (.refl hE stop)
  | ok a => exact .go a

theorem eq {r r' : Except LoweringStop α} (h : SameResult Eq r r') : r' = r := by
  cases h with
  | stop h => rw [h.eq]
  | go a => rfl

theorem toOption_eq {r r' : Except LoweringStop α} (h : SameResult E r r') :
    r'.toOption = r.toOption := by
  cases h <;> rfl

theorem bind {r r' : Except LoweringStop α} {f g : α → Except LoweringStop β}
    (h : SameResult E r r') (hf : ∀ a, SameResult E (f a) (g a)) :
    SameResult E (r >>= f) (r' >>= g) := by
  cases h with
  | stop h => exact .stop h
  | go a => exact hf a

theorem map {r r' : Except LoweringStop α} (h : SameResult E r r') (f : α → β) :
    SameResult E (f <$> r) (f <$> r') := by
  cases h with
  | stop h => exact .stop h
  | go a => exact .go (f a)

end SameResult

/-- The second step is lowered like the first, after whatever events. -/
def Lower.Likens (E : LoweringFault → LoweringFault → Prop) (x y : Lower α) : Prop :=
  ∀ b events, Alike E (x b) (y (b.noting events))

/-- The steps that follow have to be alike only where the first one leads. -/
theorem Alike.bind {x y : Lower α} {f g : α → Lower β} {b : Build} {events : List Event}
    (h : Alike E (x b) (y (b.noting events)))
    (hf : ∀ a b₁ events₁, x b = (.ok a, b₁) → Alike E (f a b₁) (g a (b₁.noting events₁))) :
    Alike E ((x >>= f) b) ((y >>= g) (b.noting events)) := by
  change Alike E (Step.bind x f b) (Step.bind y g (b.noting events))
  rw [Step.bind, Step.bind]
  generalize hx : x b = r at h
  generalize y (b.noting events) = r' at h
  cases h with
  | mk b₁ events₁ hresult =>
      cases hresult with
      | stop hE => exact .mk b₁ events₁ (.stop hE)
      | go a => exact hf a b₁ events₁ hx

namespace Lower

theorem likens_pure (a : α) : Likens E (pure a) (pure a) :=
  fun b events => .mk b events (.go a)

theorem likens_bind {x y : Lower α} {f g : α → Lower β} (h : Likens E x y)
    (hf : ∀ a, Likens E (f a) (g a)) : Likens E (x >>= f) (y >>= g) :=
  fun b events => (h b events).bind fun a b₁ events₁ _ => hf a b₁ events₁

theorem likens_fail {e e' : LoweringError} {l l' : Location} (h : E ⟨e, l⟩ ⟨e', l'⟩) :
    Likens E (fail e l : Lower α) (fail e' l') :=
  fun b events => .mk b events (.stop (.fault h))

theorem likens_refuse (r : Refusal) : Likens E (refuse r : Lower α) (refuse r) :=
  fun b events => .mk b events (.stop (.refused r))

theorem likens_draft : Likens E draft draft :=
  fun b events => .mk b events (.go b.draft)

theorem likens_update (f : Draft → Draft) : Likens E (update f) (update f) :=
  fun b events => .mk { b with draft := f b.draft } events (.go ())

theorem likens_note (e e' : Event) : Likens E (note e) (note e') :=
  fun b events => .mk { b with events := b.events ++ [e] } (events ++ [e']) (.go ())

theorem likens_addString (text : String) : Likens E (addString text) (addString text) :=
  fun b events => .mk { b with strings := b.strings ++ [⟨text⟩] } events (.go _)

theorem likens_ite {x y x' y' : Lower α} {p : Prop} [Decidable p] (h : Likens E x y)
    (h' : Likens E x' y') : Likens E (if p then x else x') (if p then y else y') := by
  split
  · exact h
  · exact h'

theorem likens_onOpenBlock {x y : Lower α} (h : Likens E x y) :
    Likens E (onOpenBlock x) (onOpenBlock y) :=
  likens_bind likens_draft fun _ => likens_ite (likens_refuse _) h

theorem likens_append (operation : Ir.Operation) :
    Likens E (append operation) (append operation) :=
  fun b events => .mk { b with draft := (b.draft.push operation).2 } events (.go _)

theorem likens_push (operation : Ir.Operation) : Likens E (push operation) (push operation) :=
  likens_ite (likens_onOpenBlock (likens_append operation)) (likens_refuse _)

theorem likens_close (exit : Ir.Exit) : Likens E (close exit) (close exit) :=
  likens_onOpenBlock (likens_update _)

theorem likens_coerce {l l' : Location} (h : SameAt E l l') (v : Value) (target : Ty) :
    Likens E (coerce v target l) (coerce v target l') := by
  unfold coerce
  refine likens_ite (likens_pure v) ?_
  split
  · exact likens_ite (likens_push _) (likens_ite (likens_push _) (likens_push _))
  · exact likens_push _
  · exact likens_fail (h _)

theorem likens_truth {l l' : Location} (h : SameAt E l l') (v : Value) :
    Likens E (truth v l) (truth v l') := by
  unfold truth
  split
  · exact likens_ite (likens_pure v) (likens_push _)
  · exact likens_push _
  · exact likens_fail (h _)

end Lower

end KestrelCompiler
