import KestrelCompiler.Proofs.Emission.Run
import KestrelCompiler.Proofs.Linking.Frame

/-!
Programs one declaration at a time. A declaration is lowered alone to a function and its string
constants; in a program it is lowered to the same ones, behind the string constants of the
declarations before it. So a program is emitted exactly where each of its declarations is, and its
text is put together from theirs.
-/

namespace KestrelCompiler

open Ir (Ty StringConstant)

/-- The function that a declaration is lowered to, and the string constants in it. -/
def FunctionDecl.Makes (width : Nat) (d : FunctionDecl) (f : Ir.Function)
    (own : List StringConstant) : Prop :=
  ∃ ret types b, d.signature.lower width = .ok (ret, types) ∧
    d.lower width ⟨Draft.start ret (Emitter.parametersOf types), [], []⟩ = (.ok (), b) ∧
    f = ⟨d.name.text, ret, b.draft.parameters, b.draft.blocks⟩ ∧ own = b.strings

namespace FunctionDecl

variable {width : Nat} {d : FunctionDecl} {f : Ir.Function} {own : List StringConstant}

theorem Makes.name (h : d.Makes width f own) : f.name = d.name.text := by
  obtain ⟨_, _, _, -, -, rfl, -⟩ := h
  rfl

/-- The declaration is lowered alone where it is lowered behind other string constants. -/
theorem makes_of_lower {ret : Ty} {types : List Ty} {strings : List StringConstant}
    {events : List Event} {b : Build} (hsignature : d.signature.lower width = .ok (ret, types))
    (hlower : d.lower width ⟨Draft.start ret (Emitter.parametersOf types), strings, events⟩ =
      (.ok (), b)) :
    ∃ f own, d.Makes width f own ∧ b.strings = strings ++ own ∧
      (⟨d.name.text, ret, b.draft.parameters, b.draft.blocks⟩ : Ir.Function) =
        f.renumber strings.length := by
  rw [lower_behind] at hlower
  obtain ⟨hok, rfl⟩ := Prod.mk.inj hlower
  exact ⟨_, _, ⟨ret, types, _, hsignature, Prod.ext hok rfl, rfl, rfl⟩, rfl, rfl⟩

theorem Makes.lower (h : d.Makes width f own) (strings : List StringConstant)
    (events : List Event) :
    ∃ ret types b, d.signature.lower width = .ok (ret, types) ∧
      d.lower width ⟨Draft.start ret (Emitter.parametersOf types), strings, events⟩ =
        (.ok (), b) ∧ b.strings = strings ++ own ∧
      (⟨d.name.text, ret, b.draft.parameters, b.draft.blocks⟩ : Ir.Function) =
        f.renumber strings.length := by
  obtain ⟨ret, types, b, hsignature, hlower, rfl, rfl⟩ := h
  refine ⟨ret, types, b.behind strings events, hsignature, ?_, rfl, rfl⟩
  rw [lower_behind, hlower]

end FunctionDecl

open FunctionDecl

variable {width : Nat} {declarations : List FunctionDecl}

/-- The first declaration is lowered alone, and the others behind its string constants. -/
theorem defines_cons_iff {d : FunctionDecl} {strings strings' : List StringConstant}
    {functions : List Ir.Function} :
    Defines width (d :: declarations) strings functions strings' ↔
      ∃ f own rest, d.Makes width f own ∧ functions = f.renumber strings.length :: rest ∧
        Defines width declarations (strings ++ own) rest strings' := by
  constructor
  · rintro (_ | ⟨hsignature, hlower, hrest⟩)
    obtain ⟨f, own, hmakes, hstrings, hf⟩ := makes_of_lower hsignature hlower
    rw [hstrings] at hrest
    exact ⟨f, own, _, hmakes, congrArg (· :: _) hf, hrest⟩
  · rintro ⟨f, own, rest, hmakes, rfl, hrest⟩
    obtain ⟨ret, types, b, hsignature, hlower, hstrings, hf⟩ := hmakes.lower strings []
    rw [← hstrings] at hrest
    rw [← hf]
    exact .cons hsignature hlower hrest

theorem defines_singleton_iff {d : FunctionDecl} {strings : List StringConstant}
    {functions : List Ir.Function} :
    Defines width [d] [] functions strings ↔
      ∃ f, d.Makes width f strings ∧ functions = [f] := by
  rw [defines_cons_iff]
  constructor
  · rintro ⟨f, own, rest, hmakes, rfl, hrest⟩
    cases hrest
    exact ⟨f, hmakes, congrArg (· :: _) f.renumber_zero⟩
  · rintro ⟨f, hmakes, rfl⟩
    exact ⟨f, strings, [], hmakes, congrArg (· :: _) f.renumber_zero.symm, .nil⟩

/-- Declarations are lowered one behind the other where each of them is lowered alone. -/
theorem exists_defines_iff (strings : List StringConstant) :
    (∃ functions strings', Defines width declarations strings functions strings' ∧
      (functions.flatMap Ir.Function.types).all Ty.isWritable = true) ↔
      ∀ d ∈ declarations, ∃ f own, d.Makes width f own ∧ f.types.all Ty.isWritable = true := by
  induction declarations generalizing strings with
  | nil => exact ⟨fun _ => List.forall_mem_nil _, fun _ => ⟨[], strings, .nil, rfl⟩⟩
  | cons d rest ih =>
      rw [List.forall_mem_cons]
      constructor
      · rintro ⟨functions, strings', h, hwritable⟩
        obtain ⟨f, own, more, hmakes, rfl, hrest⟩ := defines_cons_iff.mp h
        rw [List.flatMap_cons, List.all_append, Bool.and_eq_true, f.types_renumber] at hwritable
        exact ⟨⟨f, own, hmakes, hwritable.1⟩, (ih _).mp ⟨more, strings', hrest, hwritable.2⟩⟩
      · rintro ⟨⟨f, own, hmakes, hwritable⟩, hrest⟩
        obtain ⟨more, strings', h, hwritables⟩ := (ih _).mpr hrest
        refine ⟨_, strings', defines_cons_iff.mpr ⟨f, own, more, hmakes, rfl, h⟩, ?_⟩
        rw [List.flatMap_cons, List.all_append, Bool.and_eq_true, f.types_renumber]
        exact ⟨hwritable, hwritables⟩

theorem Defines.declares {strings strings' : List StringConstant} {functions : List Ir.Function}
    (h : Defines width declarations strings functions strings') :
    ∃ declared, List.Forall₂ (Declares width) declarations declared := by
  induction h with
  | nil => exact ⟨[], .nil⟩
  | cons hsignature _ _ ih =>
      obtain ⟨declared, hdeclares⟩ := ih
      exact ⟨_, .cons ⟨_, _, hsignature, rfl⟩ hdeclares⟩

namespace Emitter

variable {e : Emitter}

theorem declare_of_declares {d : FunctionDecl} {f : Ir.Function} (h : Declares e.width d f)
    (hnew : f.name ∉ e.module.functions.map (·.name)) :
    e.declare d =
      .ok { e with module := { e.module with functions := e.module.functions ++ [f] } } := by
  obtain ⟨ret, types, hsignature, rfl⟩ := h
  have hany : ¬ e.module.functions.any (·.name = d.name.text) = true := by
    intro hany
    obtain ⟨g, hg, hname⟩ := List.any_eq_true.mp hany
    exact hnew (List.mem_map.mpr ⟨g, hg, by simpa using hname⟩)
  rw [declare, if_neg hany, hsignature]
  rfl

theorem declareAll_of_declares {functions : List Ir.Function}
    (h : List.Forall₂ (Declares e.width) declarations functions)
    (hnames : ((e.module.functions ++ functions).map (·.name)).Nodup) :
    e.declareAll declarations = (.ok (), { e with
      module := { e.module with functions := e.module.functions ++ functions } }) := by
  induction declarations generalizing e functions with
  | nil =>
      cases h
      rw [List.append_nil]
      rfl
  | cons d rest ih =>
      cases h with
      | @cons _ f _ functions hf hrest =>
          have hnew : f.name ∉ e.module.functions.map (·.name) := by
            intro hmem
            rw [List.map_append, List.nodup_append'] at hnames
            exact hnames.2.2 hmem List.mem_cons_self
          rw [List.append_cons] at hnames ⊢
          rw [declareAll, declare_of_declares hf hnew]
          exact ih hrest hnames

theorem defineAll_of_defines {done todo functions : List Ir.Function}
    {strings : List StringConstant}
    (h : Defines e.width declarations e.module.strings functions strings)
    (hfunctions : e.module.functions = done ++ todo)
    (hdeclares : List.Forall₂ (Declares e.width) declarations todo)
    (hnames : ((done ++ todo).map (·.name)).Nodup) :
    ∃ events, e.defineAll declarations = (.ok (), { e with
      events := events
      module := { e.module with functions := done ++ functions, strings := strings } }) := by
  induction declarations generalizing e done todo functions strings with
  | nil =>
      cases hdeclares
      cases h
      rw [← hfunctions]
      exact ⟨e.events, rfl⟩
  | cons d rest ih =>
      cases hdeclares with
      | cons hf hrest =>
          obtain ⟨ret, types, hsignature, rfl⟩ := hf
          obtain ⟨f, own, more, hmakes, rfl, hmore⟩ := defines_cons_iff.mp h
          obtain ⟨ret', types', b, hsignature', hlower, hstrings, hf⟩ :=
            hmakes.lower e.module.strings e.events
          obtain ⟨rfl, rfl⟩ := Prod.mk.inj (Except.ok.inj (hsignature.symm.trans hsignature'))
          have hindex := findIdx_function hnames
          unfold defineAll define
          rw [hfunctions, hindex, List.getElem?_append_right (Nat.le_refl _), Nat.sub_self,
            List.getElem?_cons_zero]
          simp only [hlower, hf, set_length_append]
          rw [List.append_cons done _ more]
          rw [← hstrings] at hmore
          exact ih hmore rfl hrest (by simpa [hmakes.name] using hnames)

theorem build_of_defines {functions : List Ir.Function} {strings : List StringConstant}
    (hempty : e.module.functions = [])
    (h : Defines e.width e.program.declarations e.module.strings functions strings)
    (hnames : (e.program.declarations.map (·.name.text)).Nodup) :
    ∃ events, e.build = (.ok (), { e with
      events := events
      module := { e.module with functions := functions, strings := strings } }) := by
  obtain ⟨declared, hdeclares⟩ := h.declares
  rw [← names_of_declares hdeclares] at hnames
  have hdeclare := declareAll_of_declares hdeclares (by rwa [hempty])
  rw [hempty] at hdeclare
  unfold build
  rw [hdeclare]
  have hfunctions : [] ++ declared = [] ++ declared := rfl
  exact defineAll_of_defines
    (e := { e with module := { e.module with functions := [] ++ declared } }) h hfunctions hdeclares
    hnames

/-- A program whose declarations are lowered and have different names is emitted. -/
theorem emit_of_defines {program : Program} {functions : List Ir.Function}
    {strings : List StringConstant} (h : Defines width program.declarations [] functions strings)
    (hnames : (program.declarations.map (·.name.text)).Nodup) (name triple : String) :
    ∃ e, (new program width name triple).emit =
      (.ok (Ir.Module.render ⟨name, triple, functions, strings⟩), e) ∧
      e.module = ⟨name, triple, functions, strings⟩ := by
  have hnew : (new program width name triple).module.functions = [] := rfl
  obtain ⟨events, hbuild⟩ := build_of_defines hnew h hnames
  rw [emit, hbuild]
  exact ⟨_, rfl, rfl⟩

/-- The text of a program, unless there is a fault in it or a number too long to be written. -/
def text? (program : Program) (width : Nat) (name triple : String) : Option String :=
  match (new program width name triple).emit with
  | (.ok text, e) => if e.module.isWritable then some text else none
  | (.error _, _) => none

theorem emit_of_text? {program : Program} {name triple text : String}
    (h : text? program width name triple = some text) :
    ∃ e, (new program width name triple).emit = (.ok text, e) ∧ e.module.isWritable = true := by
  rw [text?] at h
  rcases hemit : (new program width name triple).emit with ⟨p | text', e⟩
  · rw [hemit] at h
    cases h
  · rw [hemit] at h
    simp only [Option.ite_none_right_eq_some, Option.some.injEq] at h
    obtain ⟨hwritable, rfl⟩ := h
    exact ⟨e, rfl, hwritable⟩

/-- No two functions of a program that is emitted have the same name. -/
theorem nodup_of_text? {program : Program} {name triple text : String}
    (h : text? program width name triple = some text) :
    (program.declarations.map (·.name.text)).Nodup := by
  obtain ⟨e, hemit, -⟩ := emit_of_text? h
  obtain ⟨hdefines, hnames⟩ := defines_of_emit hemit
  rwa [hdefines.names] at hnames

theorem text?_eq_some_iff {program : Program}
    (hnames : (program.declarations.map (·.name.text)).Nodup) {name triple text : String} :
    text? program width name triple = some text ↔ ∃ functions strings,
      Defines width program.declarations [] functions strings ∧
      (functions.flatMap Ir.Function.types).all Ty.isWritable = true ∧
      text = Ir.Module.render ⟨name, triple, functions, strings⟩ := by
  constructor
  · intro h
    obtain ⟨e, hemit, hwritable⟩ := emit_of_text? h
    obtain ⟨hdefines, -⟩ := defines_of_emit hemit
    obtain ⟨e', hemit', hmodule⟩ := emit_of_defines hdefines hnames name triple
    obtain ⟨htext, rfl⟩ := Prod.mk.inj (hemit.symm.trans hemit')
    exact ⟨_, _, hdefines, hwritable, Except.ok.inj htext⟩
  · rintro ⟨functions, strings, hdefines, hwritable, rfl⟩
    obtain ⟨e, hemit, hmodule⟩ := emit_of_defines hdefines hnames name triple
    rw [text?, hemit]
    simp only [hmodule, Ir.Module.isWritable, hwritable, if_true]

theorem exists_text?_iff (program : Program)
    (hnames : (program.declarations.map (·.name.text)).Nodup) {name triple : String} :
    (∃ text, text? program width name triple = some text) ↔
      ∀ d ∈ program.declarations, ∃ f own, d.Makes width f own ∧
        f.types.all Ty.isWritable = true := by
  rw [← exists_defines_iff []]
  constructor
  · rintro ⟨text, h⟩
    obtain ⟨functions, strings, hdefines, hwritable, -⟩ := (text?_eq_some_iff hnames).mp h
    exact ⟨functions, strings, hdefines, hwritable⟩
  · rintro ⟨functions, strings, hdefines, hwritable⟩
    exact ⟨_, (text?_eq_some_iff hnames).mpr ⟨functions, strings, hdefines, hwritable, rfl⟩⟩

end Emitter

namespace Ir.Module

/-- The lines in front of the functions. -/
def header (m : Module) : List String :=
  ["; ModuleID = " ++ inQuotes m.name, "target triple = " ++ inQuotes m.triple,
    "target datalayout = " ++ inQuotes "", ""]

/-- The functions of a module that `k` string constants come before. -/
def code (k : Nat) (m : Module) : List String :=
  m.functions.map fun f => (f.renumber k).render

/-- The string constants of a module that `k` others come before. -/
def globals (k : Nat) (m : Module) : List String :=
  m.strings.mapIdx fun index s => s.render (k + index)

/-- A part of each module, one after the other. The string constants of a module are counted on from
those of the modules before it. -/
def linked (part : Nat → Module → List String) : Nat → List Module → List String
  | _, [] => []
  | k, m :: rest => part k m ++ linked part (k + m.strings.length) rest

theorem render_eq (m : Module) :
    m.render = "\n".intercalate (m.header ++ (m.functions.map Function.render ++
      m.strings.mapIdx fun index s => s.render index)) := by
  rw [← List.append_assoc]
  rfl

end Ir.Module

/-- The module of a program of one declaration. -/
def FunctionDecl.alone (width : Nat) (name triple : String) (d : FunctionDecl) : Ir.Module :=
  (Emitter.new ⟨[d]⟩ width name triple).emit.2.module

theorem FunctionDecl.Makes.alone {d : FunctionDecl} {f : Ir.Function} {own : List StringConstant}
    (h : d.Makes width f own) (name triple : String) :
    d.alone width name triple = ⟨name, triple, [f], own⟩ := by
  have hdefines : Defines width (Program.mk [d]).declarations [] [f] own :=
    defines_singleton_iff.mpr ⟨f, h, rfl⟩
  obtain ⟨e, hemit, hmodule⟩ :=
    Emitter.emit_of_defines hdefines (List.nodup_singleton _) name triple
  rw [FunctionDecl.alone, hemit, hmodule]

/-- The written parts of declarations that are lowered one behind the other. -/
theorem Defines.linked {strings strings' : List StringConstant} {functions : List Ir.Function}
    (h : Defines width declarations strings functions strings') (name triple : String) :
    functions.map Ir.Function.render =
        Ir.Module.linked Ir.Module.code strings.length
          (declarations.map (FunctionDecl.alone width name triple)) ∧
      ∃ more, strings' = strings ++ more ∧
        (more.mapIdx fun index s => s.render (strings.length + index)) =
          Ir.Module.linked Ir.Module.globals strings.length
            (declarations.map (FunctionDecl.alone width name triple)) := by
  induction declarations generalizing strings functions with
  | nil =>
      cases h
      exact ⟨rfl, [], (List.append_nil _).symm, rfl⟩
  | cons d rest ih =>
      obtain ⟨f, own, others, hmakes, rfl, hrest⟩ := defines_cons_iff.mp h
      obtain ⟨hfunctions, more, rfl, hglobals⟩ := ih hrest
      rw [List.length_append] at hfunctions hglobals
      rw [List.map_cons, List.map_cons, hmakes.alone, hfunctions]
      refine ⟨rfl, own ++ more, List.append_assoc _ _ _, ?_⟩
      have hcount : (fun index (s : StringConstant) =>
          s.render (strings.length + (index + own.length))) =
          fun index s => s.render (strings.length + own.length + index) := by
        funext index s
        rw [Nat.add_assoc, Nat.add_comm own.length]
      rw [List.mapIdx_append, hcount, hglobals]
      rfl

namespace Emitter

/-- Compilation is modular. A program whose functions have different names is emitted exactly where
each of its declarations alone is; then its text is the header, the functions of the declarations
and the string constants of the declarations, where those of each are counted on from those
before. -/
theorem text?_modular {program : Program}
    (hnames : (program.declarations.map (·.name.text)).Nodup) (width : Nat) (name triple : String) :
    ((∃ text, text? program width name triple = some text) ↔
      ∀ d ∈ program.declarations, ∃ text, text? ⟨[d]⟩ width name triple = some text) ∧
    ∀ text, text? program width name triple = some text →
      let modules := program.declarations.map (FunctionDecl.alone width name triple)
      text = "\n".intercalate (Ir.Module.header { name, triple } ++
        (Ir.Module.linked Ir.Module.code 0 modules ++
          Ir.Module.linked Ir.Module.globals 0 modules)) := by
  constructor
  · rw [exists_text?_iff program hnames]
    refine forall_congr' fun d => imp_congr_right fun _ => ?_
    rw [exists_text?_iff ⟨[d]⟩ (List.nodup_singleton _), List.forall_mem_singleton]
  · intro text htext modules
    obtain ⟨functions, strings, hdefines, -, rfl⟩ := (text?_eq_some_iff hnames).mp htext
    obtain ⟨hfunctions, more, hmore, hglobals⟩ := hdefines.linked name triple
    obtain rfl : strings = more := hmore
    simp only [List.length_nil, Nat.zero_add] at hglobals
    rw [Ir.Module.render_eq, hfunctions, hglobals]
    rfl

/-- Each of the two functions returns a string constant of its own. -/
def stringsSource : String :=
  "f() char* \x7b :\"a\" \x7d g() char* \x7b :\"b\" \x7d"

theorem text?_modular_strings : ∃ program text, Program.parse stringsSource = .ok program ∧
    text? program 64 "main" unknownTriple = some text ∧
    ∀ d ∈ program.declarations, ∃ text, text? ⟨[d]⟩ 64 "main" unknownTriple = some text := by
  have hsome : ((Program.parse stringsSource).toOption.bind fun program =>
      text? program 64 "main" unknownTriple).isSome = true := by decide +kernel
  obtain ⟨text, htext⟩ := Option.isSome_iff_exists.mp hsome
  obtain ⟨program, hprogram, htext⟩ := Option.bind_eq_some_iff.mp htext
  have hmodular := text?_modular (nodup_of_text? htext) 64 "main" unknownTriple
  refine ⟨program, text, ?_, htext, hmodular.1.mp ⟨text, htext⟩⟩
  cases hparse : Program.parse stringsSource with
  | error p =>
      rw [hparse] at hprogram
      cases hprogram
  | ok other =>
      rw [hparse] at hprogram
      cases hprogram
      rfl

end Emitter

end KestrelCompiler
