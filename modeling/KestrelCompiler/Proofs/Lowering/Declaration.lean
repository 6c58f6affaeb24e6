import KestrelCompiler.Emitter
import KestrelCompiler.Proofs.Lowering.Naming
import KestrelCompiler.Proofs.Lowering.Types
import KestrelCompiler.Proofs.Lowering.Typing

/-!
Whole functions. Lowering starts from an entry block, fills the body and returns at its end where
that can be reached; the function that comes out is well-formed.
-/

namespace KestrelCompiler

open Ir (Ty Value StringConstant)

/-- How a function ends without a return: with zero or null. -/
def defaultExit (ret : Ty) : Ir.Exit :=
  match ret with
  | .void => .retVoid
  | .int _ => .ret ⟨ret, .number 0⟩
  | _ => .ret ⟨ret, .null⟩

theorem lowerDefault_eq (ret : Ty) : lowerDefault ret = Lower.close (defaultExit ret) := by
  cases ret <;> rfl

/-- Returns at the end of a body, unless that is closed already. -/
def Draft.finish (d : Draft) : Draft :=
  if d.isClosed then d else d.close (defaultExit d.ret)

theorem FunctionDecl.lowers_of_lower {width : Nat} {d : FunctionDecl} {b b' : Build}
    (h : d.lower width b = (.ok (), b')) :
    ∃ events b₁, LowersBlock width d.body { b with events } b₁ ∧
      b' = b₁.withDraft (·.finish) := by
  obtain ⟨_, b₁, hrun, h⟩ := Step.bind_eq_ok.mp h
  cases hrun
  obtain ⟨_, b₁, hrun, h⟩ := Step.bind_eq_ok.mp h
  refine ⟨_, b₁, lowersBlock_of_lower d.body hrun, ?_⟩
  obtain ⟨draft, b₂, hrun, h⟩ := Step.bind_eq_ok.mp h
  cases hrun
  split at h
  · next hclosed =>
      obtain ⟨-, rfl⟩ := Step.pure_eq_ok.mp h
      simp [Build.withDraft, Draft.finish, hclosed]
  · next hopen =>
      obtain ⟨draft, b₂, hrun, h⟩ := Step.bind_eq_ok.mp h
      cases hrun
      rw [lowerDefault_eq] at h
      obtain ⟨-, rfl⟩ := Lower.close_eq_ok h
      simp [Build.withDraft, Draft.finish, hopen]

namespace Draft

variable (ret : Ty) (parameters : List Ir.Parameter)

theorem isOpen_start : (start ret parameters).IsOpen :=
  ⟨Nat.one_pos, rfl⟩

end Draft

variable {ret : Ty} {types : List Ty} {strings : List StringConstant}

theorem map_type_parametersOf (types : List Ty) :
    (Emitter.parametersOf types).map (·.type) = types := by
  refine List.ext_getElem? fun i => ?_
  rw [Emitter.parametersOf, List.getElem?_map, List.getElem?_mapIdx, Option.map_map]
  exact congrFun Option.map_id _

theorem map_name_parametersOf (types : List Ty) :
    (Emitter.parametersOf types).map (·.name) =
      (List.range' 1 types.length).map Ir.resultName := by
  refine List.ext_getElem? fun i => ?_
  rw [Emitter.parametersOf, List.getElem?_map, List.getElem?_mapIdx, List.getElem?_map]
  cases htype : types[i]? with
  | none =>
      have := List.getElem?_eq_none_iff.mp htype
      rw [List.getElem?_eq_none (by rw [List.length_range']; omega)]
      rfl
  | some type =>
      have := (List.getElem?_eq_some_iff.mp htype).1
      rw [List.getElem?_range' (by omega), Nat.add_comm i 1, Nat.one_mul]
      rfl

theorem DraftTyped.start (hret : ret.IsResult) (htypes : ∀ type ∈ types, type.IsValue) :
    DraftTyped types strings (Draft.start ret (Emitter.parametersOf types)) where
  parameters := map_type_parametersOf types
  scalars := htypes
  result := hret
  bindings := fun _ hentry => nomatch hentry
  blocks b hb := by
    rw [List.mem_singleton.mp hb]
    exact ⟨trivial, nofun, nofun⟩

theorem isPlain_entry : Ir.IsPlain "entry" :=
  ⟨_, _, rfl, by decide⟩

theorem DraftNamed.start (ret : Ty) (types : List Ty) :
    DraftNamed (Draft.start ret (Emitter.parametersOf types)) where
  plain name hname := by
    rw [List.mem_singleton.mp hname]
    exact isPlain_entry
  parameters p hp := by
    have hname : p.name ∈ (Emitter.parametersOf types).map (·.name) := List.mem_map_of_mem hp
    rw [map_name_parametersOf] at hname
    obtain ⟨n, hn, hname⟩ := List.mem_map.mp hname
    have hrange := List.mem_range'_1.mp hn
    refine .inr ⟨n, ?_, hname.symm⟩
    simp only [Draft.start, Emitter.parametersOf, List.length_mapIdx]
    omega
  labels b hb := by
    rw [List.mem_singleton.mp hb]
    exact List.mem_cons_self
  names := by
    rw [Draft.names]
    simp only [Draft.start]
    rw [map_name_parametersOf, List.nodup_append_comm]
    refine List.Nodup.cons (fun hentry => ?_)
      ((List.nodup_range' ..).map fun _ _ => Ir.resultName_injective)
    obtain ⟨n, -, hname⟩ := List.mem_map.mp hentry
    exact Ir.not_isPlain_resultName n (hname ▸ isPlain_entry)
  numbers := List.nodup_nil
  range := nofun
  count := Nat.le_succ _

theorem defaultExit_fits (hret : ret.IsResult) (blocks : Nat) (code : List Ir.Instruction) :
    (defaultExit ret).Fits types ret blocks code ∧
      ∀ type ∈ (defaultExit ret).types, type.Proper := by
  rcases hret with rfl | ⟨hproper, hscalar⟩
  · exact ⟨rfl, nofun⟩
  cases ret with
  | int width => exact ⟨⟨⟨width, rfl⟩, rfl⟩, List.forall_mem_singleton.mpr hproper⟩
  | pointer target => exact ⟨⟨⟨target, rfl⟩, rfl⟩, List.forall_mem_singleton.mpr hproper⟩
  | void | function _ _ => cases hscalar

namespace Draft

variable {d : Draft} {parameters : List Ir.Parameter}

theorem parameters_finish (d : Draft) : d.finish.parameters = d.parameters := by
  rw [finish]
  split <;> rfl

theorem extends_finish (h : d.current < d.blocks.length) : Extends [] d d.finish := by
  rw [finish]
  split
  · exact .refl h
  · next hopen => exact extends_close ⟨h, Bool.eq_false_iff.mpr hopen⟩ _

theorem isClosed_finish (h : d.current < d.blocks.length) : d.finish.isClosed = true := by
  rw [finish]
  split
  · assumption
  · exact isClosed_close h _

theorem finish_typed (h : DraftTyped types strings d) : DraftTyped types strings d.finish := by
  rw [finish]
  split
  · exact h
  · have hfits := @defaultExit_fits d.ret types h.result
    exact h.close (fun _ _ => (hfits _ _).1) (hfits 0 []).2

theorem finish_named (h : DraftNamed d) (hinside : d.current < d.blocks.length) :
    DraftNamed d.finish := by
  rw [finish]
  split
  · exact h
  · exact h.close hinside _

theorem Extends.closed_finish (h : Extends [] (start ret parameters) d) :
    ∀ b ∈ d.finish.blocks, b.exit.isSome = true := by
  have hfinish := h.trans (extends_finish h.inside)
  intro b hb
  obtain ⟨i, hi⟩ := List.getElem?_of_mem hb
  by_cases hcurrent : i = d.finish.current
  · have hclosed := isClosed_finish h.inside
    rw [isClosed, currentBlock?, ← hcurrent, hi] at hclosed
    exact hclosed
  · refine hfinish.closed i b ?_ hcurrent List.not_mem_nil hi
    change i = 0 ∨ 1 ≤ i
    omega

theorem Extends.head_finish (h : Extends [] (start ret parameters) d) :
    d.finish.blocks.head?.map (·.label) = some "entry" := by
  have hfinish := h.trans (extends_finish h.inside)
  obtain ⟨b, hb, hgrows⟩ := hfinish.grow 0 _ rfl
  rw [List.head?_eq_getElem?, hb]
  exact congrArg some hgrows.label

end Draft

/-- The function that is made of a declaration, and the string constants after it. -/
theorem FunctionDecl.wellFormed_of_lower {width : Nat} (hwidth : 0 < width) {d : FunctionDecl}
    (hnamed : d.Named) {events : List Event} {b : Build}
    (hsignature : d.signature.lower width = .ok (ret, types))
    (h : d.lower width ⟨Draft.start ret (Emitter.parametersOf types), strings, events⟩ =
      (.ok (), b)) :
    (⟨d.name.text, ret, b.draft.parameters, b.draft.blocks⟩ : Ir.Function).WellFormed b.strings ∧
      strings <+: b.strings := by
  obtain ⟨hret, htypes⟩ := Signature.isValue_of_lower hwidth hsignature
  obtain ⟨events, b₁, hlowers, rfl⟩ := FunctionDecl.lowers_of_lower h
  have hinside := (Draft.isOpen_start ret (Emitter.parametersOf types)).inside
  have hextends := hlowers.extends hinside
  have hstart : DraftTyped types strings (Draft.start ret (Emitter.parametersOf types)) :=
    DraftTyped.start hret htypes
  have htyped := Draft.finish_typed (hlowers.typed hwidth hinside hstart)
  have hnames := Draft.finish_named (hlowers.named hnamed.body hinside (DraftNamed.start ret types))
    hextends.inside
  have hretSame : b₁.draft.finish.ret = ret :=
    (hextends.trans (Draft.extends_finish hextends.inside)).ret
  refine ⟨?_, hlowers.strings⟩
  exact {
    entry := hextends.head_finish
    code := fun b hb => htyped.parameters ▸ (htyped.blocks b hb).code
    exits := fun b hb => by
      obtain ⟨exit, hexit⟩ := Option.isSome_iff_exists.mp (hextends.closed_finish b hb)
      refine ⟨exit, hexit, ?_⟩
      have hfits := ((htyped.blocks b hb).exit exit hexit).1
      rw [← htyped.parameters, hretSame] at hfits
      exact hfits
    names := by
      have hall := hnames.nodup
      simp only [Draft.numbers, List.map_flatMap, List.map_map] at hall
      exact hall
    ret := hret
    parameters := fun p hp => by
      refine htyped.scalars _ ?_
      rw [← htyped.parameters]
      exact List.mem_map_of_mem hp
    types := fun b hb => (htyped.blocks b hb).proper }

end KestrelCompiler
