import KestrelCompiler.Proofs.Emission.Run
import KestrelCompiler.Proofs.Grammar.Unambiguity
import KestrelCompiler.Proofs.Lowering.Declaration

/-!
Emitted modules are well-formed. String constants are only added, so that a function that fits those
before it is finished also fits those of the whole module.
-/

namespace KestrelCompiler

open Ir (StringConstant)

theorem Ir.Function.WellFormed.strings_mono {strings strings' : List StringConstant}
    {f : Ir.Function} (h : f.WellFormed strings) (hgrows : strings <+: strings') :
    f.WellFormed strings' := by
  obtain ⟨more, rfl⟩ := hgrows
  exact { h with code := fun b hb => (h.code b hb).strings_mono more }

variable {width : Nat}

theorem Defines.wellFormed {declarations : List FunctionDecl}
    {strings strings' : List StringConstant} {functions : List Ir.Function}
    (h : Defines width declarations strings functions strings') (hwidth : 0 < width)
    (hnamed : ∀ d ∈ declarations, d.Named) :
    (∀ f ∈ functions, f.WellFormed strings') ∧ strings <+: strings' := by
  induction h with
  | nil => exact ⟨List.forall_mem_nil _, List.prefix_rfl⟩
  | cons hsignature hlower _ ih =>
      obtain ⟨hd, hrest⟩ := List.forall_mem_cons.mp hnamed
      obtain ⟨hfunction, hgrows⟩ :=
        FunctionDecl.wellFormed_of_lower hwidth hd hsignature hlower
      obtain ⟨hfunctions, hgrows'⟩ := ih hrest
      exact ⟨List.forall_mem_cons.mpr ⟨hfunction.strings_mono hgrows', hfunctions⟩,
        hgrows.trans hgrows'⟩

/-- Names of string constants begin with a point. -/
theorem Ir.Module.nodup_globalNames {m : Ir.Module} (hnames : (m.functions.map (·.name)).Nodup)
    (hplain : ∀ f ∈ m.functions, Ir.IsPlain f.name) : m.globalNames.Nodup := by
  have hstrings : ((List.range m.strings.length).map Ir.stringName).Nodup :=
    List.nodup_range.map fun _ _ => Ir.stringName_injective
  refine List.nodup_append'.mpr ⟨hnames, hstrings, fun name hfunction hstring => ?_⟩
  obtain ⟨f, hf, rfl⟩ := List.mem_map.mp hfunction
  obtain ⟨n, -, hname⟩ := List.mem_map.mp hstring
  exact Ir.not_isPlain_stringName n (hname ▸ hplain f hf)

namespace Emitter

/-- Function names are identifiers. So a name that is asked for is never taken, however the
emission ends. -/
theorem nodup_globalNames_emit {source : String} {program : Program}
    (hparse : Program.parse source = .ok program) (width : Nat) (name triple : String) :
    (new program width name triple).emit.2.module.globalNames.Nodup := by
  obtain ⟨spans, hderives⟩ := Program.derives_of_parse hparse
  obtain ⟨hnames, hfunctions⟩ := nodup_names_emit program width name triple
  refine Ir.Module.nodup_globalNames hnames fun f hf => ?_
  obtain ⟨d, hd, hname⟩ := List.mem_map.mp (hfunctions f hf)
  exact hname ▸ isPlain_of_isIdentifier (hderives.named d hd).name

theorem wellFormed_of_emit {source name triple text : String} {program : Program} {e : Emitter}
    (hparse : Program.parse source = .ok program) (hwidth : 0 < width)
    (hemit : (new program width name triple).emit = (.ok text, e)) : e.module.WellFormed := by
  obtain ⟨spans, hderives⟩ := Program.derives_of_parse hparse
  obtain ⟨hdefines, -⟩ := defines_of_emit hemit
  have hnames := nodup_globalNames_emit hparse width name triple
  rw [hemit] at hnames
  exact {
    names := hnames
    functions := (hdefines.wellFormed hwidth hderives.named).1 }

/-- A parameter asks for the name of the entry block, and both branches return. -/
def entrySource : String :=
  "f(int*, bool) int \x7b args! entry, b if entry \x7b : b \x7d else \x7b : 1 - b \x7d \x7d"

theorem wellFormed_of_emit_entry : ∃ program text e, Program.parse entrySource = .ok program ∧
    0 < 32 ∧ (new program 32 "main" unknownTriple).emit = (.ok text, e) ∧
    e.module.WellFormed := by
  obtain ⟨program, text, e, hparse, hemit⟩ :=
    exists_emit_of_accepts (by decide +kernel : accepts 32 entrySource = true)
  exact ⟨program, text, e, hparse, by decide, hemit,
    wellFormed_of_emit hparse (by decide) hemit⟩

end Emitter

end KestrelCompiler
