import KestrelCompiler.Proofs.Likeness.Statement
import KestrelCompiler.Proofs.Lowering.Declaration

/-!
Programs that are emitted alike: function by function, their signatures stand for the same types and
their bodies are lowered alike.
-/

namespace KestrelCompiler

open Lower

structure FunctionDecl.Like (E : LoweringFault → LoweringFault → Prop) (d d' : FunctionDecl) :
    Prop where
  name : d.name.Like E d'.name
  signature : ∀ width, SameResult E (d.signature.lower width) (d'.signature.lower width)
  body : Block.Like E d.body d'.body

def Program.Like (E : LoweringFault → LoweringFault → Prop) (p p' : Program) : Prop :=
  List.Forall₂ (FunctionDecl.Like E) p.declarations p'.declarations

variable {E : LoweringFault → LoweringFault → Prop}

theorem likens_lowerDefault (ret : Ir.Ty) : Likens E (lowerDefault ret) (lowerDefault ret) := by
  rw [lowerDefault_eq]
  exact likens_close _

theorem FunctionDecl.Like.alike {d d' : FunctionDecl} {width : Nat} {b : Build}
    (h : d.Like E d') (hopen : b.draft.IsOpen) (events : List Event) :
    Alike E (d.lower width b) (d'.lower width (b.noting events)) := by
  refine (likens_note (.lowering d.name.text) (.lowering d'.name.text) b events).bind
    fun _ b₁ events₁ hrun => ?_
  have hopen₁ : b₁.draft.IsOpen := by
    cases hrun
    exact hopen
  refine (h.body.alike events₁ hopen₁).bind fun _ b₂ events₂ _ => ?_
  refine likens_bind likens_draft (fun draft => ?_) b₂ events₂
  exact likens_ite (likens_pure ()) (likens_bind likens_draft fun d => likens_lowerDefault d.ret)

namespace Emitter

/-- Emitters of like programs that have built the same so far. -/
structure Same (E : LoweringFault → LoweringFault → Prop) (e e' : Emitter) : Prop where
  program : e.program.Like E e'.program
  width : e'.width = e.width
  module : e'.module = e.module

/-- Two runs of an emitter come to the same result or to stops that correspond, and leave the same
module. -/
def Alike (E : LoweringFault → LoweringFault → Prop) {α : Type}
    (r r' : Except LoweringStop α × Emitter) : Prop :=
  SameResult E r.1 r'.1 ∧ r.2.Same E r'.2

theorem Alike.cases {r r' : Except LoweringStop Unit × Emitter} (h : Alike E r r') :
    (∃ stop stop' e e', SameStop E stop stop' ∧ e.Same E e' ∧ r = (.error stop, e) ∧
      r' = (.error stop', e')) ∨
    ∃ e e', e.Same E e' ∧ r = (.ok (), e) ∧ r' = (.ok (), e') := by
  obtain ⟨r, e⟩ := r
  obtain ⟨r', e'⟩ := r'
  obtain ⟨hresult, hsame⟩ := h
  cases hresult with
  | stop hE => exact .inl ⟨_, _, e, e', hE, hsame, rfl, rfl⟩
  | go _ => exact .inr ⟨e, e', hsame, rfl, rfl⟩

variable {e e' : Emitter} {d d' : FunctionDecl} {declarations declarations' : List FunctionDecl}

theorem Same.declare (hsame : e.Same E e') (h : d.Like E d') :
    (∃ stop stop', SameStop E stop stop' ∧ e.declare d = .error stop ∧
      e'.declare d' = .error stop') ∨
    ∃ e₁ e₁', Same E e₁ e₁' ∧ e.declare d = .ok e₁ ∧ e'.declare d' = .ok e₁' := by
  unfold Emitter.declare
  rw [hsame.module, hsame.width, h.name.text]
  split
  · exact .inl ⟨_, _, .fault (h.name.start _), rfl, rfl⟩
  · have hsignature := h.signature e.width
    generalize d.signature.lower e.width = r at hsignature
    generalize d'.signature.lower e.width = r' at hsignature
    cases hsignature with
    | stop hE => exact .inl ⟨_, _, hE, rfl, rfl⟩
    | go types =>
        refine .inr ⟨_, _, ?_, rfl, rfl⟩
        exact ⟨hsame.program, rfl, rfl⟩

theorem Same.declareAll (hsame : e.Same E e')
    (h : List.Forall₂ (FunctionDecl.Like E) declarations declarations') :
    Alike E (e.declareAll declarations) (e'.declareAll declarations') := by
  induction h generalizing e e' with
  | nil => exact ⟨.go (), hsame⟩
  | cons hd _ ih =>
      rw [Emitter.declareAll, Emitter.declareAll]
      rcases hsame.declare hd with ⟨f, f', hE, hd, hd'⟩ | ⟨e₁, e₁', hsame₁, hd, hd'⟩
      · rw [hd, hd']
        exact ⟨.stop hE, hsame⟩
      · rw [hd, hd']
        exact ih hsame₁

theorem Same.define (hsame : e.Same E e') (h : d.Like E d') (position : Nat) :
    Alike E (e.define d position) (e'.define d' position) := by
  unfold Emitter.define
  rw [hsame.module, hsame.width]
  cases e.module.functions[position]? with
  | none => exact ⟨.stop (.refused _), hsame⟩
  | some function =>
      have hopen := Draft.isOpen_start function.ret function.parameters
      have halike := @FunctionDecl.Like.alike _ _ _ e.width
        ⟨Draft.start function.ret function.parameters, e.module.strings, e.events⟩ h hopen e'.events
      dsimp only [Build.noting] at halike ⊢
      generalize d.lower e.width _ = r at halike
      generalize d'.lower e.width _ = r' at halike
      cases halike with
      | mk b events hresult => exact ⟨hresult, hsame.program, rfl, rfl⟩

theorem Same.defineAll (hsame : e.Same E e')
    (h : List.Forall₂ (FunctionDecl.Like E) declarations declarations') :
    Alike E (e.defineAll declarations) (e'.defineAll declarations') := by
  induction h generalizing e e' with
  | nil => exact ⟨.go (), hsame⟩
  | cons hd _ ih =>
      rw [Emitter.defineAll, Emitter.defineAll, hsame.module, hd.name.text]
      obtain ⟨f, f', e₁, e₁', hE, hsame₁, hd, hd'⟩ | ⟨e₁, e₁', hsame₁, hd, hd'⟩ :=
        (hsame.define hd _).cases
      · rw [hd, hd']
        exact ⟨.stop hE, hsame₁⟩
      · rw [hd, hd']
        exact ih hsame₁

theorem Same.emit (hsame : e.Same E e') : Alike E e.emit e'.emit := by
  rw [Emitter.emit, Emitter.emit, Emitter.build, Emitter.build]
  obtain ⟨f, f', e₁, e₁', hE, hsame₁, hd, hd'⟩ | ⟨e₁, e₁', hsame₁, hd, hd'⟩ :=
    (hsame.declareAll hsame.program).cases
  · rw [hd, hd']
    exact ⟨.stop hE, hsame₁⟩
  · rw [hd, hd']
    dsimp only
    obtain ⟨f, f', e₂, e₂', hE, hsame₂, hd, hd'⟩ | ⟨e₂, e₂', hsame₂, hd, hd'⟩ :=
      (hsame₁.defineAll hsame₁.program).cases
    · rw [hd, hd']
      exact ⟨.stop hE, hsame₂⟩
    · rw [hd, hd']
      refine ⟨?_, hsame₂⟩
      dsimp only
      rw [hsame₂.module]
      exact .go _

end Emitter

/-- Like programs are emitted alike. -/
theorem Program.Like.emit {p p' : Program} (h : p.Like E p') (width : Nat) (name triple : String) :
    Emitter.Alike E (Emitter.new p width name triple).emit
      (Emitter.new p' width name triple).emit := by
  exact Emitter.Same.emit ⟨h, rfl, rfl⟩

end KestrelCompiler
