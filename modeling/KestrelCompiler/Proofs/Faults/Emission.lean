import Mathlib.Algebra.Group.Nat.Defs
import KestrelCompiler.Proofs.Emission.WellFormed
import KestrelCompiler.Proofs.Faults.Statement
import KestrelCompiler.Proofs.Linking.Modularity
import KestrelCompiler.Proofs.Meaning.Preservation
import KestrelCompiler.Proofs.Tree.Layout

/-!
Faults of programs. Emission stops exactly where there is a fault in the program, with one of its
faults, and that points at a token of the source. Nothing else can stop it: the builder takes all
that it is given, and no name of a global is taken when it is asked for. Only a width of more than
4300 digits cannot be written.
-/

namespace KestrelCompiler

open Ir (Ty StringConstant)

/-- A body is lowered exactly where it has no fault, whatever string constants there are already. -/
theorem FunctionDecl.decides_lower {width : Nat} {d : FunctionDecl} {ret : Ty} {types : List Ty}
    (hsignature : d.signature.lower width = .ok (ret, types)) (strings : List StringConstant)
    (events : List Event) :
    Decides (Decimal.isWritable width = true)
      (d.lower width ⟨Draft.start ret (Emitter.parametersOf types), strings, events⟩).1
      (d.body.HasFault d.signature {}) := by
  rw [lower_behind, FunctionDecl.lower,
    Step.bind_of_ok
      (show Lower.note (.lowering d.name.text) _ = (.ok (), Build.mk _ [] _) from rfl)]
  have hbody := Block.decides_lower (b := ⟨Draft.start ret (Emitter.parametersOf types), [],
    [.lowering d.name.text]⟩) (Signature.gives_of_lower hsignature) d.body
    (Draft.isOpen_start ret (Emitter.parametersOf types)) (Matches.start rfl)
  refine Lower.decides_bind_ok hbody fun _ b _ => ?_
  rw [Lower.draft_bind]
  split
  · exact ⟨_, _, rfl⟩
  · next hopen =>
      rw [Lower.draft_bind, lowerDefault_eq]
      exact ⟨_, _, Lower.close_of_open (Bool.eq_false_iff.mpr hopen)⟩

/-- What is wrong with the names and the signatures of declarations behind others. -/
def DeclarationsHaveFault (names : List String) (declarations : List FunctionDecl)
    (f : LoweringFault) : Prop :=
  (∃ d ∈ declarations, d.signature.HasFault f) ∨
    Repeated (·.name.text) names declarations fun d =>
      f = ⟨.duplicateFunction d.name.text, d.name.span.start⟩

theorem declarationsHaveFault_cons_iff {names : List String} {d : FunctionDecl}
    {rest : List FunctionDecl} {f : LoweringFault} :
    DeclarationsHaveFault names (d :: rest) f ↔
      ((d.name.text ∈ names ∧ f = ⟨.duplicateFunction d.name.text, d.name.span.start⟩) ∨
        d.signature.HasFault f) ∨ DeclarationsHaveFault (d.name.text :: names) rest f := by
  rw [DeclarationsHaveFault, DeclarationsHaveFault, List.exists_mem_cons_iff, repeated_cons_iff]
  simp only [or_assoc, or_left_comm]

theorem Program.hasFault_iff {p : Program} {f : LoweringFault} : p.HasFault f ↔
    DeclarationsHaveFault [] p.declarations f ∨
      ∃ d ∈ p.declarations, d.body.HasFault d.signature {} f := by
  constructor
  · rintro (⟨hd, h⟩ | ⟨hdecls, hname⟩ | ⟨hd, h⟩)
    · exact .inl (.inl ⟨_, hd, h⟩)
    · exact .inl (.inr ⟨_, _, _, hdecls, .inr hname, rfl⟩)
    · exact .inr ⟨_, hd, h⟩
  · rintro ((⟨d, hd, h⟩ | ⟨before, d, rest, hdecls, hname, rfl⟩) | ⟨d, hd, h⟩)
    · exact .signature hd h
    · exact .duplicate hdecls (hname.resolve_left List.not_mem_nil)
    · exact .body hd h

namespace Emitter

variable {e : Emitter} {written : Prop}

theorem decides_declare (e : Emitter) (d : FunctionDecl) :
    Decides written (e.declare d) fun f =>
      (d.name.text ∈ e.module.functions.map (·.name) ∧
        f = ⟨.duplicateFunction d.name.text, d.name.span.start⟩) ∨ d.signature.HasFault f := by
  have hany : e.module.functions.any (·.name = d.name.text) = true ↔
      d.name.text ∈ e.module.functions.map (·.name) := by
    simp [List.any_eq_true]
  rw [declare]
  split
  · next hknown => exact ⟨.inl ⟨hany.mp hknown, rfl⟩, fun _ => rfl⟩
  · next hnew =>
      refine (Signature.decides_lower.bind_ok).congr fun f => ?_
      exact ⟨.inr, fun h => h.resolve_left fun hknown => hnew (hany.mpr hknown.1)⟩

theorem decides_declareAll (declarations : List FunctionDecl) (e : Emitter) :
    Decides written (e.declareAll declarations).1
      (DeclarationsHaveFault (e.module.functions.map (·.name)) declarations) := by
  induction declarations generalizing e with
  | nil =>
      rintro f (⟨d, hd, -⟩ | hrepeated)
      · exact List.not_mem_nil hd
      · exact not_repeated_nil hrepeated
  | cons d rest ih =>
      refine Decides.congr ?_ fun f => declarationsHaveFault_cons_iff.symm
      have hd : Decides written (e.declare d) _ := decides_declare e d
      rw [declareAll]
      cases hrun : e.declare d with
      | error stop =>
          rw [hrun] at hd
          exact hd.stop fun _ => .inl
      | ok e₁ =>
          rw [hrun] at hd
          obtain ⟨g, hg, -, rfl⟩ := declare_eq_ok hrun
          refine (ih _).congr fun f => ?_
          have hnames : ∀ name, name ∈ (e.module.functions ++ [g]).map (·.name) ↔
              name ∈ d.name.text :: e.module.functions.map (·.name) := by
            simp [hg.name, or_comm]
          have hsame : DeclarationsHaveFault ((e.module.functions ++ [g]).map (·.name)) rest f ↔
              DeclarationsHaveFault (d.name.text :: e.module.functions.map (·.name)) rest f := by
            simp only [DeclarationsHaveFault, Repeated, hnames]
          exact hsame.trans ⟨.inr, fun h => h.resolve_left (hd f)⟩

theorem decides_defineAll {declarations : List FunctionDecl} {done todo : List Ir.Function}
    (hfunctions : e.module.functions = done ++ todo)
    (hdeclares : List.Forall₂ (Declares e.width) declarations todo)
    (hnames : ((done ++ todo).map (·.name)).Nodup) :
    Decides (Decimal.isWritable e.width = true) (e.defineAll declarations).1 fun f =>
      ∃ d ∈ declarations, d.body.HasFault d.signature {} f := by
  induction declarations generalizing e done todo with
  | nil => exact fun f ⟨d, hd, _⟩ => List.not_mem_nil hd
  | cons d rest ih =>
      cases hdeclares with
      | cons hf hrest =>
          obtain ⟨ret, types, hsignature, rfl⟩ := hf
          have hd := FunctionDecl.decides_lower hsignature e.module.strings e.events
          have hindex := findIdx_function hnames
          refine Decides.congr ?_ fun f => (List.exists_mem_cons_iff _ _ _).symm
          unfold defineAll define
          rw [hfunctions, hindex, List.getElem?_append_right (Nat.le_refl _), Nat.sub_self,
            List.getElem?_cons_zero]
          rcases hrun : d.lower e.width ⟨Draft.start ret (parametersOf types), e.module.strings,
            e.events⟩ with ⟨stop | ok, b⟩
          · rw [hrun] at hd
            simp only [hrun]
            exact hd.stop fun _ => .inl
          · rw [hrun] at hd
            simp only [hrun]
            refine Decides.congr (ih (set_length_append done _ _ _) hrest ?_) fun f => ?_
            · simpa using hnames
            · exact ⟨.inr, fun h => h.resolve_left (hd f)⟩

/-- A fresh emitter lowers a program exactly where there is no fault in it. -/
theorem decides_build (program : Program) (width : Nat) (name triple : String) :
    Decides (Decimal.isWritable width = true) (new program width name triple).build.1
      program.HasFault := by
  refine Decides.congr ?_ fun f => Program.hasFault_iff.symm
  have hdeclares : Decides (Decimal.isWritable width = true) _ _ :=
    decides_declareAll program.declarations (new program width name triple)
  unfold build
  rcases hrun : (new program width name triple).declareAll program.declarations with ⟨stop | ok, e₁⟩
  · rw [hrun] at hdeclares
    rw [show (new program width name triple).program = program from rfl, hrun]
    exact hdeclares.stop fun _ => .inl
  · rw [hrun] at hdeclares
    rw [show (new program width name triple).program = program from rfl, hrun]
    obtain ⟨declared, hall, hnames, rfl⟩ := declareAll_eq_ok hrun List.nodup_nil
    have hfunctions : [] ++ declared = [] ++ declared := rfl
    have hdefines := decides_defineAll
      (e := { new program width name triple with
        module := { name, triple, functions := [] ++ declared } }) hfunctions hall hnames
    refine hdefines.congr fun f => ?_
    exact ⟨.inr, fun h => h.resolve_left (hdeclares f)⟩

/-- A fresh emitter emits a program exactly where there is no fault in it. -/
theorem decides_emit (program : Program) (width : Nat) (name triple : String) :
    Decides (Decimal.isWritable width = true) (new program width name triple).emit.1
      program.HasFault := by
  have hbuild := decides_build program width name triple
  unfold emit
  rcases hrun : (new program width name triple).build with ⟨stop | ok, e⟩
  · rw [hrun] at hbuild
    exact hbuild.stop fun _ => id
  · rw [hrun] at hbuild
    exact hbuild

theorem hasFault_of_emit {program : Program} {width : Nat} {name triple : String}
    {f : LoweringFault} (hemit : (new program width name triple).emit.1 = .error f) :
    program.HasFault f := by
  have hdecides := decides_emit program width name triple
  rw [hemit] at hdecides
  exact hdecides.1

end Emitter

theorem Defines.isWritable {width : Nat} {declarations : List FunctionDecl}
    {strings strings' : List StringConstant} {functions : List Ir.Function}
    (h : Defines width declarations strings functions strings')
    (hwidth : Decimal.isWritable width = true) :
    (functions.flatMap Ir.Function.types).all Ty.isWritable = true := by
  induction h with
  | nil => rfl
  | cons hsignature hlower _ ih =>
      rw [List.flatMap_cons, List.all_append, Bool.and_eq_true]
      exact ⟨FunctionDecl.writable_of_lower hwidth hsignature hlower, ih⟩

namespace Emitter

variable {e : Emitter}

end Emitter

theorem Leaf.Lays.between {source : List Char} {i : Nat} {p q : Position} {ls : List Leaf}
    (h : Lays p ls q) (hp : p = At source i) (hi : i ≤ source.length) :
    ∀ l ∈ ls, ∃ a b, a < b ∧ b ≤ source.length ∧ l.token.span = .between source a b := by
  induction h generalizing i with
  | nil => exact List.forall_mem_nil _
  | cons hleaf _ ih =>
      subst hp
      obtain ⟨a, b, -, hab, hb, hspan, hq, -⟩ := stands_at hleaf hi
      exact List.forall_mem_cons.mpr ⟨⟨a, b, hab, hb, hspan⟩, ih hq hb⟩

/-- The tokens of a tree are stretches of its source, none of them empty. -/
theorem Program.between_of_parse {source : String} {program : Program}
    (h : Program.parse source = .ok program) : ∀ t ∈ program.part.tokens,
      ∃ a b, a < b ∧ b ≤ source.toList.length ∧ t.span = .between source.toList a b := by
  obtain ⟨spans, q, hderives, -⟩ := Program.derives_of_parse h
  have hstart : Position.start source = Leaf.At source.toList 0 := rfl
  intro t ht
  obtain ⟨l, hl, rfl⟩ := List.mem_map.mp ht
  exact hderives.lays.between hstart (Nat.zero_le _) l hl

/-- Tells whether something stops with a fault that has a property. -/
def stopsWith {α : Type} (P : LoweringFault → Bool) : Except LoweringStop α → Bool
  | .error (.fault f) => P f
  | _ => false

theorem exists_of_stopsWith {α : Type} {P : LoweringFault → Bool} {r : Except LoweringStop α}
    (h : stopsWith P r = true) : ∃ f : LoweringFault, r = .error f ∧ P f = true := by
  rcases r with (f | reason) | a
  · exact ⟨f, rfl, h⟩
  · cases h
  · cases h

theorem Program.exists_parse_of_any {source : String} {P : Program → Bool}
    (h : (Program.parse source).toOption.any P = true) :
    ∃ program, Program.parse source = .ok program ∧ P program = true := by
  cases hparse : Program.parse source with
  | error p =>
      rw [hparse] at h
      cases h
  | ok program =>
      rw [hparse] at h
      exact ⟨program, rfl, h⟩

namespace LoweringError

end LoweringError

namespace Emitter

end Emitter

end KestrelCompiler
