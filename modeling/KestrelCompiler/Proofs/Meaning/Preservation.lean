import KestrelCompiler.Proofs.Emission.Run
import KestrelCompiler.Proofs.Lowering.Declaration
import KestrelCompiler.Proofs.Meaning.Statement

/-!
Compilation preserves meaning. A function that is emitted returns on all words of the kinds of its
parameters, and it gives back what the evaluation of its declaration gives back.
-/

namespace KestrelCompiler

open Ir (Ty StringConstant Results)

section Kinds

variable {width : Nat}

namespace TypeExpr

theorem kind?_of_lowerNamed {name : Token} {type : Ty} (h : lowerNamed width name = .ok type) :
    (named name).kind? width = type.kind? := by
  unfold lowerNamed at h
  rw [kind?]
  split at h
  · next hint =>
      cases h
      rw [if_pos hint]
      rfl
  rw [if_neg ‹_›]
  split at h
  · next hbool =>
      cases h
      rw [if_pos hbool]
      rfl
  rw [if_neg ‹_›]
  split at h
  · next hchar =>
      cases h
      rw [if_pos hchar]
      rfl
  split at h <;> cases h

theorem kind?_of_lower {t : TypeExpr} {type : Ty} (h : t.lower width = .ok type) :
    t.kind? width = type.kind? := by
  cases t with
  | named name => exact kind?_of_lowerNamed h
  | pointer inner star =>
      obtain ⟨target, rfl, -⟩ := exists_of_lower_pointer h
      rfl
  | function args ret left right =>
      obtain ⟨result, types, rfl, -⟩ := exists_of_lower_function h
      rfl

theorem kind?_of_lowerAll {ts : List TypeExpr} {types : List Ty}
    (h : lowerAll width ts = .ok types) : ts.map (·.kind? width) = types.map (·.kind?) := by
  induction ts generalizing types with
  | nil =>
      cases h
      rfl
  | cons t rest ih =>
      unfold lowerAll at h
      obtain ⟨type, ht, h⟩ := exists_of_bind_eq_ok h
      obtain ⟨others, hrest, h⟩ := exists_of_bind_eq_ok h
      cases h
      rw [List.map_cons, List.map_cons, kind?_of_lower ht, ih hrest]

theorem kind?_of_isVoid {t : TypeExpr} (h : t.isVoid = true) : t.kind? width = none := by
  cases t with
  | named name =>
      have hvoid : name.text = "void" := by simpa [isVoid] using h
      simp [kind?, hvoid]
  | pointer _ _ | function _ _ _ _ => cases h

theorem kind?_of_lowerReturn {ret : Option TypeExpr} {type : Ty}
    (h : lowerReturn width ret = .ok type) : ret.bind (·.kind? width) = type.kind? := by
  cases ret with
  | none =>
      cases h
      rfl
  | some t =>
      rw [lowerReturn] at h
      split at h
      · next hvoid =>
          cases h
          exact kind?_of_isVoid hvoid
      · exact kind?_of_lower h

end TypeExpr

theorem Signature.kinds_of_lower {s : Signature} {ret : Ty} {types : List Ty}
    (h : s.lower width = .ok (ret, types)) :
    s.result? width = ret.kind? ∧ s.args.map (·.kind? width) = types.map (·.kind?) := by
  unfold Signature.lower at h
  obtain ⟨result, hret, h⟩ := exists_of_bind_eq_ok h
  obtain ⟨others, hargs, h⟩ := exists_of_bind_eq_ok h
  cases h
  exact ⟨TypeExpr.kind?_of_lowerReturn hret, TypeExpr.kind?_of_lowerAll hargs⟩

end Kinds

theorem ArgsFit.of_kinds {types : List Ty} {args : List Word}
    (h : types.map (·.kind?) = args.map fun w => some w.kind) : ArgsFit types args := by
  intro position type htype
  have hkind := congrArg (·[position]?) h
  simp only [List.getElem?_map, htype] at hkind
  obtain ⟨w, hw, hsame⟩ := Option.map_eq_some_iff.mp hkind.symm
  exact ⟨w, hw, hsame.symm⟩

variable {width : Nat} {ret : Ty} {types : List Ty}

theorem Matches.start {literals : List String} {strings : List StringConstant}
    {events : List Event} (h : strings.map (·.text) = literals) :
    Matches ret types { literals }
      ⟨Draft.start ret (Emitter.parametersOf types), strings, events⟩ where
  ret := rfl
  parameters := map_type_parametersOf types
  bindings := fun _ hentry => nomatch hentry
  names := fun _ => rfl
  literals := h

theorem step_defaultExit (hret : ret.IsResult) (args : List Word) (results : Results) :
    (defaultExit ret).step args results = some (.returned (ret.kind?.map Word.zero)) := by
  rcases hret with rfl | ⟨-, hscalar⟩
  · rfl
  cases ret with
  | int n =>
      exact Ir.step_ret (congrArg (fun bits => some (Word.int bits)) (BitVec.ofInt_ofNat n 0))
  | pointer target => rfl
  | void | function _ _ => cases hscalar

/-- The function does what the declaration says, with these string literals before it. -/
structure Implements (width : Nat) (literals : List String) (d : FunctionDecl)
    (f : Ir.Function) : Prop where
  name : f.name = d.name.text
  parameters : f.parameters.map (·.type.kind?) = d.signature.args.map (·.kind? width)
  returns : ∀ args, d.signature.Takes width args →
    ∃ result, d.eval width literals args = some result ∧
      ∀ other, f.Returns args other ↔ other = result

theorem FunctionDecl.implements_of_lower (hwidth : 0 < width) {d : FunctionDecl}
    {literals : List String} {strings : List StringConstant} {events : List Event} {b : Build}
    (hstrings : strings.map (·.text) = literals)
    (hsignature : d.signature.lower width = .ok (ret, types))
    (h : d.lower width ⟨Draft.start ret (Emitter.parametersOf types), strings, events⟩ =
      (.ok (), b)) :
    b.strings.map (·.text) = d.literalsAfter literals ∧
      Implements width literals d ⟨d.name.text, ret, b.draft.parameters, b.draft.blocks⟩ := by
  obtain ⟨events, b₁, hlowers, rfl⟩ := FunctionDecl.lowers_of_lower h
  have hopen := Draft.isOpen_start ret (Emitter.parametersOf types)
  have hstart := @Matches.start ret types literals strings events hstrings
  obtain ⟨hmatches, -⟩ := hlowers.matches hopen hstart
  have hinside := (hlowers.extends hopen.inside).inside
  obtain ⟨hresult, hkinds⟩ := Signature.kinds_of_lower hsignature
  have hparameters : b₁.draft.finish.parameters.map (·.type) = types := by
    rw [Draft.parameters_finish]
    exact hmatches.parameters
  refine ⟨hmatches.literals, rfl, ?_, fun args hargs => ?_⟩
  · rw [hkinds, ← hparameters, List.map_map]
    rfl
  have hfit : ArgsFit types args := ArgsFit.of_kinds (hkinds.symm.trans hargs)
  have hrun := hlowers.simulates hopen hstart hfit (Draft.extends_finish hinside).grow fun _ => none
  rw [FunctionDecl.eval, hresult]
  generalize d.body.run width args ret.kind? { literals } = ending at hrun ⊢
  cases hrun with
  | @returned w hsteps => exact ⟨some w, rfl, Ir.Function.Returns.iff_eq hsteps⟩
  | @next results hopen hsteps =>
      have hfinish : b₁.draft.finish = b₁.draft.close (defaultExit ret) := by
        rw [Draft.finish, hopen, hmatches.ret]
        rfl
      have hexit := step_defaultExit (Signature.isValue_of_lower hwidth hsignature).1 args results
      have hgrow : Ir.Grow (b₁.draft.close (defaultExit ret)).blocks b₁.draft.finish.blocks := by
        rw [hfinish]
        exact .refl _
      have hstep := (step_close hinside hgrow).trans hexit
      exact ⟨ret.kind?.map Word.zero, rfl,
        Ir.Function.Returns.iff_eq (hsteps.trans (.single hstep))⟩

/-- What holds of each declaration and the function that it is lowered to holds all over a module,
behind the string literals of the declarations before it. -/
theorem Defines.forall_of_lower {P : List String → FunctionDecl → Ir.Function → Prop}
    (hP : ∀ {d : FunctionDecl} {literals : List String} {strings : List StringConstant} {ret : Ty}
      {types : List Ty} {events : List Event} {b : Build}, strings.map (·.text) = literals →
      d.signature.lower width = .ok (ret, types) →
      d.lower width ⟨Draft.start ret (Emitter.parametersOf types), strings, events⟩ =
        (.ok (), b) →
      b.strings.map (·.text) = d.literalsAfter literals ∧
        P literals d ⟨d.name.text, ret, b.draft.parameters, b.draft.blocks⟩)
    {declarations : List FunctionDecl} {literals : List String}
    {strings strings' : List StringConstant} {functions : List Ir.Function}
    (h : Defines width declarations strings functions strings')
    (hstrings : strings.map (·.text) = literals) :
    strings'.map (·.text) = declarations.foldl FunctionDecl.literalsAfter literals ∧
      ∀ (i : Nat) (d : FunctionDecl) (f : Ir.Function), declarations[i]? = some d →
        functions[i]? = some f →
        P ((declarations.take i).foldl FunctionDecl.literalsAfter literals) d f := by
  induction h generalizing literals with
  | nil =>
      refine ⟨hstrings, fun i d f hd _ => ?_⟩
      rw [List.getElem?_nil] at hd
      cases hd
  | cons hsignature hlower _ ih =>
      obtain ⟨hafter, hfunction⟩ := hP hstrings hsignature hlower
      obtain ⟨hliterals, hrest⟩ := ih hafter
      refine ⟨hliterals, fun i d f hd hf => ?_⟩
      cases i with
      | zero =>
          cases hd
          cases hf
          exact hfunction
      | succ i => exact hrest i d f hd hf

theorem Defines.implements (hwidth : 0 < width) {declarations : List FunctionDecl}
    {literals : List String} {strings strings' : List StringConstant}
    {functions : List Ir.Function}
    (h : Defines width declarations strings functions strings')
    (hstrings : strings.map (·.text) = literals) :
    strings'.map (·.text) = declarations.foldl FunctionDecl.literalsAfter literals ∧
      ∀ (i : Nat) (d : FunctionDecl) (f : Ir.Function), declarations[i]? = some d →
        functions[i]? = some f →
        Implements width ((declarations.take i).foldl FunctionDecl.literalsAfter literals) d f :=
  h.forall_of_lower (FunctionDecl.implements_of_lower hwidth) hstrings

namespace Emitter

variable {program : Program} {e : Emitter} {name triple text : String}

/-- The functions of a module do what the declarations say, one by one, and the string constants are
the literals that the declarations refer to. -/
theorem implements_of_emit (hwidth : 0 < width)
    (hemit : (new program width name triple).emit = (.ok text, e)) :
    e.module.strings.map (·.text) = literalsOf program.declarations ∧
      e.module.functions.length = program.declarations.length ∧
      ∀ (i : Nat) (d : FunctionDecl) (f : Ir.Function), program.declarations[i]? = some d →
        e.module.functions[i]? = some f →
        Implements width (literalsOf (program.declarations.take i)) d f := by
  obtain ⟨hdefines, -⟩ := defines_of_emit hemit
  obtain ⟨hliterals, hfunctions⟩ := hdefines.implements hwidth rfl
  refine ⟨hliterals, ?_, hfunctions⟩
  have hnames := congrArg List.length hdefines.names
  rwa [List.length_map, List.length_map] at hnames

/-- A return on one side of a fork, and three widths. -/
def forkSource : String :=
  "f(char, bool) int \x7b args! c, b if c < b \x7b if \"no\" \x7b : b \x7d \x7d else \x7b \x7d : c - 1 \x7d"

theorem implements_of_emit_fork : ∃ program text e, Program.parse forkSource = .ok program ∧
    0 < 32 ∧ (new program 32 "main" unknownTriple).emit = (.ok text, e) ∧
    ∀ (d : FunctionDecl) (f : Ir.Function), program.declarations[0]? = some d →
      e.module.functions[0]? = some f → Implements 32 [] d f := by
  obtain ⟨program, text, e, hparse, hemit⟩ :=
    exists_emit_of_accepts (by decide +kernel : accepts 32 forkSource = true)
  have himplements := implements_of_emit (by decide) hemit
  exact ⟨program, text, e, hparse, by decide, hemit, himplements.2.2 0⟩

end Emitter

end KestrelCompiler
