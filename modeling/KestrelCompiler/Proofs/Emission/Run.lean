import KestrelCompiler.Proofs.Lowering.Types
import KestrelCompiler.Emitter
import Mathlib.Data.List.Forall2
import Mathlib.Data.List.Nodup

/-!
Runs of a fresh emitter that meet no fault. Each declaration is first declared and then defined in
its turn, and it finds its own function, since no two functions have the same name.
-/

namespace KestrelCompiler

open Ir (Ty StringConstant)

/-- A function that is declared and still empty. -/
def Declares (width : Nat) (d : FunctionDecl) (f : Ir.Function) : Prop :=
  ∃ ret types, d.signature.lower width = .ok (ret, types) ∧
    f = ⟨d.name.text, ret, Emitter.parametersOf types, []⟩

theorem Declares.name {width : Nat} {d : FunctionDecl} {f : Ir.Function} (h : Declares width d f) :
    f.name = d.name.text := by
  obtain ⟨ret, types, -, rfl⟩ := h
  rfl

/-- The functions that declarations are lowered to, in order, and the string constants before and
after them. -/
inductive Defines (width : Nat) :
    List FunctionDecl → List StringConstant → List Ir.Function → List StringConstant → Prop
  | nil {strings : List StringConstant} : Defines width [] strings [] strings
  | cons {d : FunctionDecl} {rest : List FunctionDecl} {strings strings' : List StringConstant}
    {ret : Ty} {types : List Ty} {events : List Event} {b : Build}
    {functions : List Ir.Function} :
    d.signature.lower width = .ok (ret, types) →
    d.lower width ⟨Draft.start ret (Emitter.parametersOf types), strings, events⟩ = (.ok (), b) →
    Defines width rest b.strings functions strings' →
    Defines width (d :: rest) strings
      (⟨d.name.text, ret, b.draft.parameters, b.draft.blocks⟩ :: functions) strings'

theorem names_of_declares {width : Nat} {declarations : List FunctionDecl}
    {functions : List Ir.Function} (h : List.Forall₂ (Declares width) declarations functions) :
    functions.map (·.name) = declarations.map (·.name.text) := by
  induction h with
  | nil => rfl
  | cons hf _ ih => exact congrArg₂ List.cons hf.name ih

theorem Defines.names {width : Nat} {declarations : List FunctionDecl}
    {strings strings' : List StringConstant} {functions : List Ir.Function}
    (h : Defines width declarations strings functions strings') :
    functions.map (·.name) = declarations.map (·.name.text) := by
  induction h with
  | nil => rfl
  | cons _ _ _ ih => exact congrArg (_ :: ·) ih

namespace Emitter

variable {e e' : Emitter}

theorem declare_eq_ok {d : FunctionDecl} (h : e.declare d = .ok e') :
    ∃ f, Declares e.width d f ∧ d.name.text ∉ e.module.functions.map (·.name) ∧
      e' = { e with module := { e.module with functions := e.module.functions ++ [f] } } := by
  unfold declare at h
  split at h
  · cases h
  · next hnew =>
      obtain ⟨⟨ret, types⟩, hsignature, h⟩ := exists_of_bind_eq_ok h
      cases h
      refine ⟨_, ⟨ret, types, hsignature, rfl⟩, fun hmem => hnew ?_, rfl⟩
      obtain ⟨f, hf, hname⟩ := List.mem_map.mp hmem
      exact List.any_eq_true.mpr ⟨f, hf, by simpa using hname⟩

theorem nodup_names_declare {d : FunctionDecl} (h : e.declare d = .ok e')
    (hnames : (e.module.functions.map (·.name)).Nodup) :
    (e'.module.functions.map (·.name)).Nodup := by
  obtain ⟨f, hf, hnew, rfl⟩ := declare_eq_ok h
  rw [List.map_append, List.nodup_append_comm, List.map_singleton, hf.name]
  exact hnames.cons hnew

theorem declareAll_eq_ok {declarations : List FunctionDecl}
    (h : e.declareAll declarations = (.ok (), e'))
    (hnames : (e.module.functions.map (·.name)).Nodup) :
    ∃ functions, List.Forall₂ (Declares e.width) declarations functions ∧
      ((e.module.functions ++ functions).map (·.name)).Nodup ∧
      e' = { e with module := { e.module with functions := e.module.functions ++ functions } } := by
  induction declarations generalizing e with
  | nil =>
      cases h
      exact ⟨[], .nil, by simpa using hnames, by simp⟩
  | cons d rest ih =>
      unfold declareAll at h
      cases hd : e.declare d with
      | error p =>
          simp only [hd] at h
          cases h
      | ok e₁ =>
          simp only [hd] at h
          have hnames' := nodup_names_declare hd hnames
          obtain ⟨f, hf, -, rfl⟩ := declare_eq_ok hd
          obtain ⟨functions, hall, hnodup, rfl⟩ := ih h hnames'
          refine ⟨f :: functions, .cons hf hall, ?_, ?_⟩
          · simpa using hnodup
          · simp

/-- Names are looked at before they are given, also where a declaration is refused in the end. -/
theorem nodup_names_declareAll (declarations : List FunctionDecl) (e : Emitter)
    (hnames : (e.module.functions.map (·.name)).Nodup) :
    ((e.declareAll declarations).2.module.functions.map (·.name)).Nodup ∧
      ∀ name ∈ (e.declareAll declarations).2.module.functions.map (·.name),
        name ∈ e.module.functions.map (·.name) ∨ name ∈ declarations.map (·.name.text) := by
  induction declarations generalizing e with
  | nil => exact ⟨hnames, fun _ => .inl⟩
  | cons d rest ih =>
      unfold declareAll
      cases hd : e.declare d with
      | error stop => exact ⟨hnames, fun _ => .inl⟩
      | ok e₁ =>
          obtain ⟨hnodup, hmem⟩ := ih e₁ (nodup_names_declare hd hnames)
          obtain ⟨f, hf, -, rfl⟩ := declare_eq_ok hd
          refine ⟨hnodup, fun name hname => ?_⟩
          have hcases := hmem name hname
          simp only [List.map_append, List.map_singleton, List.mem_append, List.mem_singleton,
            hf.name] at hcases
          rw [List.map_cons, List.mem_cons]
          exact or_assoc.mp hcases

/-- A function that is filled keeps its name. -/
theorem names_define (e : Emitter) (d : FunctionDecl) (position : Nat) :
    (e.define d position).2.program = e.program ∧
      (e.define d position).2.module.functions.map (·.name) =
        e.module.functions.map (·.name) := by
  unfold define
  cases hf : e.module.functions[position]? with
  | none => exact ⟨rfl, rfl⟩
  | some f =>
      refine ⟨rfl, ?_⟩
      have hname : (e.module.functions.map (·.name))[position]? = some f.name := by
        rw [List.getElem?_map, hf]
        rfl
      obtain ⟨hlt, hget⟩ := List.getElem?_eq_some_iff.mp hname
      dsimp only
      rw [List.map_set, ← hget, List.set_getElem_self]

theorem names_defineAll (declarations : List FunctionDecl) (e : Emitter) :
    (e.defineAll declarations).2.program = e.program ∧
      (e.defineAll declarations).2.module.functions.map (·.name) =
        e.module.functions.map (·.name) := by
  induction declarations generalizing e with
  | nil => exact ⟨rfl, rfl⟩
  | cons d rest ih =>
      have hd := names_define e d (e.module.functions.findIdx (·.name = d.name.text))
      unfold defineAll
      rcases hrun : e.define d (e.module.functions.findIdx (·.name = d.name.text)) with
        ⟨stop | ok, e₁⟩
      · rw [hrun] at hd
        simp only [hrun]
        exact hd
      · rw [hrun] at hd
        simp only [hrun]
        obtain ⟨hprogram, hnames⟩ := ih e₁
        exact ⟨hprogram.trans hd.1, hnames.trans hd.2⟩

/-- The function of a declaration is the only one of its name. -/
theorem findIdx_function {done todo : List Ir.Function} {f : Ir.Function}
    (hnames : ((done ++ f :: todo).map (·.name)).Nodup) :
    (done ++ f :: todo).findIdx (·.name = f.name) = done.length := by
  rw [List.map_append, List.nodup_append'] at hnames
  have hdone : done.findIdx (·.name = f.name) = done.length := by
    refine List.findIdx_eq_length_of_false fun g hg => decide_eq_false fun hsame => ?_
    exact hnames.2.2 (List.mem_map_of_mem hg) (hsame ▸ List.mem_cons_self)
  rw [List.findIdx_append, hdone, if_neg (Nat.lt_irrefl _), List.findIdx_cons]
  simp

theorem set_length_append {α : Type} (l rest : List α) (a b : α) :
    (l ++ a :: rest).set l.length b = (l ++ [b]) ++ rest := by
  rw [List.set_append_right _ _ (Nat.le_refl _), Nat.sub_self, List.set_cons_zero,
    List.append_assoc, List.singleton_append]

theorem defineAll_eq_ok {declarations : List FunctionDecl} {done todo : List Ir.Function}
    (h : e.defineAll declarations = (.ok (), e'))
    (hfunctions : e.module.functions = done ++ todo)
    (hdeclares : List.Forall₂ (Declares e.width) declarations todo)
    (hnames : ((done ++ todo).map (·.name)).Nodup) :
    ∃ functions, Defines e.width declarations e.module.strings functions e'.module.strings ∧
      e'.module.functions = done ++ functions := by
  induction declarations generalizing e done todo with
  | nil =>
      cases hdeclares
      cases h
      exact ⟨[], .nil, hfunctions⟩
  | cons d rest ih =>
      cases hdeclares with
      | cons hf hrest =>
          obtain ⟨ret, types, hsignature, rfl⟩ := hf
          have hindex := findIdx_function hnames
          unfold defineAll define at h
          rw [hfunctions, hindex, List.getElem?_append_right (Nat.le_refl _), Nat.sub_self,
            List.getElem?_cons_zero] at h
          simp only [] at h
          rcases hrun : d.lower e.width ⟨Draft.start ret (parametersOf types), e.module.strings,
            e.events⟩ with ⟨error | ok, b⟩
          · simp only [hrun] at h
            cases h
          · simp only [hrun] at h
            obtain ⟨functions, hdefines, hall⟩ := ih h (set_length_append ..) hrest (by simpa using hnames)
            exact ⟨_ :: functions, .cons hsignature hrun hdefines, by simpa using hall⟩

theorem emit_snd (e : Emitter) : e.emit.2 = e.build.2 := by
  unfold emit
  rcases e.build with ⟨stop | ok, e₁⟩ <;> rfl

/-- However an emission ends, no two functions have the same name, and all are of the program. -/
theorem nodup_names_emit (program : Program) (width : Nat) (name triple : String) :
    ((new program width name triple).emit.2.module.functions.map (·.name)).Nodup ∧
      ∀ f ∈ (new program width name triple).emit.2.module.functions,
        f.name ∈ program.declarations.map (·.name.text) := by
  obtain ⟨hnodup, hmem⟩ := nodup_names_declareAll program.declarations
    (new program width name triple) List.nodup_nil
  have hnames : (new program width name triple).emit.2.module.functions.map (·.name) =
      ((new program width name triple).declareAll program.declarations).2.module.functions.map
        (·.name) := by
    rw [emit_snd, build, show (new program width name triple).program = program from rfl]
    rcases (new program width name triple).declareAll program.declarations with ⟨stop | ok, e⟩
    · rfl
    · exact (names_defineAll _ e).2
  refine ⟨hnames ▸ hnodup, fun f hf => ?_⟩
  have hname := List.mem_map_of_mem (f := (·.name)) hf
  rw [hnames] at hname
  exact (hmem _ hname).resolve_left List.not_mem_nil

theorem build_of_emit {text : String} (h : e.emit = (.ok text, e')) : e.build = (.ok (), e') := by
  unfold emit at h
  rcases hbuild : e.build with ⟨error | ok, e₁⟩
  · simp only [hbuild] at h
    cases h
  · simp only [hbuild] at h
    cases h
    rfl

theorem text_of_emit {text : String} (h : e.emit = (.ok text, e')) : text = e'.module.render := by
  rw [emit, build_of_emit h] at h
  cases h
  rfl

theorem declareAll_of_build (h : e.build = (.ok (), e')) :
    ∃ e₁, e.declareAll e.program.declarations = (.ok (), e₁) ∧
      e₁.defineAll e₁.program.declarations = (.ok (), e') := by
  unfold build at h
  rcases hdeclare : e.declareAll e.program.declarations with ⟨error | ok, e₁⟩
  · simp only [hdeclare] at h
    cases h
  · simp only [hdeclare] at h
    exact ⟨e₁, rfl, h⟩

/-- What a fresh emitter makes of a program. -/
theorem defines_of_emit {program : Program} {width : Nat} {name triple text : String}
    (h : (new program width name triple).emit = (.ok text, e)) :
    Defines width program.declarations [] e.module.functions e.module.strings ∧
      (e.module.functions.map (·.name)).Nodup := by
  obtain ⟨e₁, hdeclare, hdefine⟩ := declareAll_of_build (build_of_emit h)
  obtain ⟨declared, hdeclares, hnames, rfl⟩ := declareAll_eq_ok hdeclare List.nodup_nil
  have hdeclared : declared.map (·.name) = program.declarations.map (·.name.text) :=
    names_of_declares hdeclares
  obtain ⟨functions, hdefines, hfunctions⟩ := defineAll_eq_ok hdefine rfl hdeclares hnames
  have hfunctions : e.module.functions = functions := hfunctions
  rw [hfunctions]
  refine ⟨hdefines, ?_⟩
  have hdefined : functions.map (·.name) = program.declarations.map (·.name.text) :=
    hdefines.names
  rw [hdefined, ← hdeclared]
  exact hnames

/-- Tells whether a source is read and emitted without a fault. -/
def accepts (width : Nat) (source : String) : Bool :=
  ((Program.parse source).toOption.bind fun program =>
    (new program width "main" unknownTriple).emit.1.toOption).isSome

theorem exists_emit_of_accepts {width : Nat} {source : String} (h : accepts width source = true) :
    ∃ program text e, Program.parse source = .ok program ∧
      (new program width "main" unknownTriple).emit = (.ok text, e) := by
  unfold accepts at h
  cases hparse : Program.parse source with
  | error p =>
      rw [hparse] at h
      cases h
  | ok program =>
      rw [hparse] at h
      rcases hemit : (new program width "main" unknownTriple).emit with ⟨p | text, e⟩
      · change (((new program width "main" unknownTriple).emit.1).toOption).isSome = true at h
        rw [hemit] at h
        cases h
      · exact ⟨program, text, e, rfl, hemit⟩

end Emitter

end KestrelCompiler
