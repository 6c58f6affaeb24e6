import KestrelCompiler.Ir.Printer
import KestrelCompiler.Lowering

/-!
Emission of whole programs. All functions are declared before the first one is defined. An emitter
keeps its module from one emission to the next, also after a fault, so that a second emission
finds the functions declared already.
-/

namespace KestrelCompiler

structure Emitter where
  program : Program
  width : Nat
  module : Ir.Module
  events : List Event := []

namespace Emitter

def new (program : Program) (width : Nat) (name triple : String) : Emitter where
  program := program
  width := width
  module := { name, triple }

/-- Parameters without names of their own are numbered from one. -/
def parametersOf (types : List Ir.Ty) : List Ir.Parameter :=
  types.mapIdx fun i type => ⟨type, Ir.resultName (i + 1)⟩

def declare (e : Emitter) (d : FunctionDecl) : Except LoweringStop Emitter := do
  if e.module.functions.any (·.name = d.name.text) then
    .error (.fault ⟨.duplicateFunction d.name.text, d.name.span.start⟩)
  else
    let (ret, args) ← d.signature.lower e.width
    let function : Ir.Function := ⟨d.name.text, ret, parametersOf args, []⟩
    .ok { e with module := { e.module with functions := e.module.functions ++ [function] } }

def declareAll (e : Emitter) : List FunctionDecl → Except LoweringStop Unit × Emitter
  | [] => (.ok (), e)
  | d :: rest =>
    match e.declare d with
    | .ok e => e.declareAll rest
    | .error p => (.error p, e)

/-- Fills the function at a position. What was built before a stop stays. -/
def define (e : Emitter) (d : FunctionDecl) (position : Nat) : Except LoweringStop Unit × Emitter :=
  match e.module.functions[position]? with
  | none => (.error (.refused .undeclared), e)
  | some function =>
    let draft := Draft.start function.ret function.parameters
    let (result, build) := d.lower e.width ⟨draft, e.module.strings, e.events⟩
    let function :=
      { function with parameters := build.draft.parameters, blocks := build.draft.blocks }
    (result, { e with
      events := build.events
      module := { e.module with
        functions := e.module.functions.set position function
        strings := build.strings } })

def defineAll (e : Emitter) : List FunctionDecl → Except LoweringStop Unit × Emitter
  | [] => (.ok (), e)
  | d :: rest =>
    match e.define d (e.module.functions.findIdx (·.name = d.name.text)) with
    | (.ok (), e) => e.defineAll rest
    | (.error p, e) => (.error p, e)

/-- Lowers the program into the module. -/
def build (e : Emitter) : Except LoweringStop Unit × Emitter :=
  match e.declareAll e.program.declarations with
  | (.ok (), e) => e.defineAll e.program.declarations
  | (.error p, e) => (.error p, e)

/-- The text of the module, once the whole program is lowered. -/
def emit (e : Emitter) : Except LoweringStop String × Emitter :=
  match e.build with
  | (.ok (), e) => (.ok e.module.render, e)
  | (.error p, e) => (.error p, e)

end Emitter

/-- The triple of a module for which none is configured. -/
def unknownTriple : String := "unknown-unknown-unknown"

end KestrelCompiler
