import KestrelCompiler.Proofs.Faults.Emission
import KestrelCompiler.Proofs.Meaning.Preservation
import KestrelCompiler.Proofs.Occurrences.Occurrence
import Mathlib.Data.List.Forall2

/-!
Sites of live expressions. The code of each of them stands together in one block of the finished
function, in the order in which the expressions are listed, and it computes what the expression
stands for.
-/

namespace KestrelCompiler

open Ir (Ty Value Instruction StringConstant Results Steps Grow)

/-- Where the code of an expression stands in a function. -/
structure Site where
  block : Nat
  /-- How many instructions of the block stand before the code. -/
  start : Nat
  code : List Instruction
  /-- What the code gives. -/
  value : Value

def Ir.Operand.result? : Ir.Operand → Option Nat
  | .result n => some n
  | .number _ | .null | .parameter _ => none

/-- The code stands in a block, behind `start` instructions. -/
def Ir.Holds (blocks : List Ir.Block) (block start : Nat) (code : List Instruction) : Prop :=
  ∃ b before after, blocks[block]? = some b ∧ b.instructions = before ++ (code ++ after) ∧
    before.length = start

section Holds

variable {blocks : List Ir.Block} {block start : Nat} {code more : List Instruction}

theorem Ir.Holds.left (h : Ir.Holds blocks block start (code ++ more)) :
    Ir.Holds blocks block start code := by
  obtain ⟨b, before, after, hb, hcode, hstart⟩ := h
  exact ⟨b, before, more ++ after, hb, by rw [hcode, List.append_assoc], hstart⟩

theorem Ir.Holds.right (h : Ir.Holds blocks block start (code ++ more)) :
    Ir.Holds blocks block (start + code.length) more := by
  obtain ⟨b, before, after, hb, hcode, rfl⟩ := h
  exact ⟨b, before ++ code, after, hb, by rw [hcode]; simp only [List.append_assoc],
    List.length_append⟩

/-- Code that was appended stands in the finished function. -/
theorem exists_holds_of_grow {d : Draft} (hopen : d.IsOpen)
    (hgrow : Grow (d.append code).blocks blocks) :
    ∃ start, Ir.Holds blocks d.current start code := by
  obtain ⟨b, hb, -⟩ := hopen.exists_block
  have happend : (d.append code).blocks[d.current]? =
      some { b with instructions := b.instructions ++ code } := by
    simp [Draft.append, hb]
  obtain ⟨b', hb', hgrows⟩ := hgrow _ _ happend
  obtain ⟨after, hafter⟩ := hgrows.code
  exact ⟨_, b', b.instructions, after, hb', hafter.symm.trans (List.append_assoc ..), rfl⟩

end Holds

namespace Site

/-- The code is executed to its end with any earlier results, and then its value is `w`. -/
def Gives (blocks : List Ir.Block) (args : List Word) (site : Site) (w : Word) : Prop :=
  ∀ results, ∃ results', Steps blocks args (.running site.block site.start results)
      (.running site.block (site.start + site.code.length) results') ∧
    site.value.eval args results' = some w

/-- The number of the result that the code gives, if that is not a constant or a parameter. -/
def number? (site : Site) : Option Nat :=
  site.value.operand.result?

theorem gives_of_evaluates {blocks : List Ir.Block} {args : List Word} {site : Site} {w : Word}
    (count : Nat) (hstands : Ir.Holds blocks site.block site.start site.code)
    (h : ∀ results, ∃ results', Evaluates args count results site.code site.value w results') :
    site.Gives blocks args w := by
  intro results
  obtain ⟨b, before, after, hb, hcode, hstart⟩ := hstands
  obtain ⟨results', heval⟩ := h results
  have hsteps := Ir.steps_code hb hcode heval.run
  rw [List.length_append, hstart] at hsteps
  exact ⟨results', hsteps, heval.value⟩

end Site

/-- The expression was compiled with the names of its scope, and its code stands at the site. -/
structure Emitted (width : Nat) (types : List Ty) (blocks : List Ir.Block) (p : Occurrence)
    (site : Site) : Prop where
  stands : Ir.Holds blocks site.block site.start site.code
  compiles : ∃ bindings count texts, NamesMatch p.scope.names bindings ∧
    BindingsFit types bindings ∧ Compiles width bindings count p.scope.literals.length
      p.expression site.code texts site.value

theorem Emitted.gives {width : Nat} {types : List Ty} {blocks : List Ir.Block} {p : Occurrence}
    {site : Site} {args : List Word} (h : Emitted width types blocks p site)
    (hargs : ArgsFit types args) :
    ∃ w, p.expression.eval width args p.scope = some w ∧
      site.value.type.kind? = some w.kind ∧ site.Gives blocks args w := by
  obtain ⟨bindings, count, texts, hnames, hbindings, hcompiles⟩ := h.compiles
  have hevaluates := hcompiles.evaluates hnames hbindings hargs rfl
  obtain ⟨w, _, hw, heval⟩ := hevaluates fun _ => none
  refine ⟨w, hw, heval.kind, Site.gives_of_evaluates count h.stands fun results => ?_⟩
  obtain ⟨w', results', hw', heval'⟩ := hevaluates results
  obtain rfl := Option.some.inj (hw.symm.trans hw')
  exact ⟨results', heval'⟩

/-- The occurrences have these sites, one by one, and the results are numbered in this order, after
`first` and up to `last`. -/
structure Covers (width : Nat) (types : List Ty) (blocks : List Ir.Block) (first last : Nat)
    (occurrences : List Occurrence) (sites : List Site) : Prop where
  emitted : List.Forall₂ (Emitted width types blocks) occurrences sites
  ordered : (sites.filterMap Site.number?).Pairwise (· < ·)
  range : ∀ n ∈ sites.filterMap Site.number?, first < n ∧ n ≤ last
  le : first ≤ last

section Covers

variable {width : Nat} {types : List Ty} {blocks : List Ir.Block} {first middle last : Nat}
  {occurrences more : List Occurrence} {sites others : List Site}

namespace Covers

theorem nil (h : first ≤ last) : Covers width types blocks first last [] [] :=
  ⟨.nil, .nil, nofun, h⟩

theorem single {p : Occurrence} {site : Site} (h : Emitted width types blocks p site)
    (hnumber : ∀ n, site.number? = some n → first < n ∧ n ≤ last) (hle : first ≤ last) :
    Covers width types blocks first last [p] [site] where
  emitted := .cons h .nil
  ordered := by
    cases hsite : site.number? <;> simp [hsite]
  range n hn := by
    obtain ⟨other, hother, hn⟩ := List.mem_filterMap.mp hn
    rw [List.mem_singleton.mp hother] at hn
    exact hnumber n hn
  le := hle

theorem append (h : Covers width types blocks first middle occurrences sites)
    (h' : Covers width types blocks middle last more others) :
    Covers width types blocks first last (occurrences ++ more) (sites ++ others) where
  emitted := List.rel_append h.emitted h'.emitted
  ordered := by
    rw [List.filterMap_append, List.pairwise_append]
    refine ⟨h.ordered, h'.ordered, fun a ha b hb => ?_⟩
    exact Nat.lt_of_le_of_lt (h.range a ha).2 (h'.range b hb).1
  range n hn := by
    have hle := h.le
    have hle' := h'.le
    rw [List.filterMap_append, List.mem_append] at hn
    rcases hn with hn | hn
    · have := h.range n hn
      omega
    · have := h'.range n hn
      omega
  le := Nat.le_trans h.le h'.le

theorem mono {first' last' : Nat} (h : Covers width types blocks first last occurrences sites)
    (hfirst : first' ≤ first) (hlast : last ≤ last') :
    Covers width types blocks first' last' occurrences sites where
  emitted := h.emitted
  ordered := h.ordered
  range n hn := by
    have := h.range n hn
    omega
  le := by
    have := h.le
    omega

end Covers

/-- The parts of an expression stand inside its code. -/
theorem Compiles.exists_covers {bindings : List (String × Value)} {count k block start : Nat}
    {e : Expr} {code : List Instruction} {texts : List StringConstant} {v : Value} {s : Scope}
    (h : Compiles width bindings count k e code texts v) (hnames : NamesMatch s.names bindings)
    (hbindings : BindingsFit types bindings) (hk : k = s.literals.length)
    (hcode : Ir.Holds blocks block start code) :
    ∃ sites, Covers width types blocks count (count + code.length) (e.occurrences s) sites := by
  induction h generalizing s start with
  | @number count _ _ token hvalue =>
      have hemitted : Emitted width types blocks ⟨s, .number token⟩ ⟨block, start, [], _⟩ :=
        ⟨hcode, bindings, count, [], hnames, hbindings, .number hvalue⟩
      exact ⟨_, .single hemitted (fun n hn => nomatch hn) (Nat.le_refl _)⟩
  | @string count k token =>
      subst hk
      have hemitted : Emitted width types blocks ⟨s, .string token⟩ ⟨block, start, _, _⟩ :=
        ⟨hcode, bindings, count, _, hnames, hbindings, .string⟩
      refine ⟨_, .single hemitted (fun n hn => ?_) (Nat.le_succ _)⟩
      cases hn
      exact ⟨Nat.lt_succ_self _, Nat.le_refl _⟩
  | @name count _ token v hlookup =>
      have hemitted : Emitted width types blocks ⟨s, .name token⟩ ⟨block, start, [], v⟩ :=
        ⟨hcode, bindings, count, [], hnames, hbindings, .name hlookup⟩
      refine ⟨_, .single hemitted (fun n hn => ?_) (Nat.le_refl _)⟩
      obtain ⟨position, type, rfl, -⟩ := hbindings _ (mem_of_lookup hlookup)
      cases hn
  | @binary count k m n operation left right op codeL codeR _ _ _ _ _ _ _ _ hl hr hm hn hl' hr'
      ihl ihr =>
      subst hk
      have hoperands := hcode.left.left.left
      obtain ⟨sitesL, hsitesL⟩ := ihl hnames rfl hoperands.left
      have hafter := hl.after s
      obtain ⟨sitesR, hsitesR⟩ := @ihr _ (left.after s) (by rw [hafter]; exact hnames)
        (by rw [hafter, List.length_append, List.length_map]) hoperands.right
      have hemitted : Emitted width types blocks ⟨s, .binary operation left op right⟩
          ⟨block, start, _, _⟩ :=
        ⟨hcode, bindings, count, _, hnames, hbindings, .binary hl hr hm hn hl' hr'⟩
      refine ⟨_, (hsitesL.append hsitesR).append (.single hemitted (fun number hnumber => ?_) ?_)⟩
      · cases hnumber
        simp only [List.length_append, List.length_singleton]
        omega
      · simp only [List.length_append, List.length_singleton]
        omega

end Covers

section Statements

variable {width : Nat} {ret : Ty} {types : List Ty} {blocks : List Ir.Block}

theorem Matches.exists_covers {s : Scope} {b : Build} {e : Expr} {code more : List Instruction}
    {texts : List StringConstant} {v : Value} (h : Matches ret types s b) (hopen : b.draft.IsOpen)
    (he : Compiles width b.draft.bindings b.draft.count b.strings.length e code texts v)
    (hgrow : Grow (b.draft.append (code ++ more)).blocks blocks) :
    ∃ sites, Covers width types blocks b.draft.count (b.draft.append (code ++ more)).count
      (e.occurrences s) sites := by
  obtain ⟨start, hcode⟩ := exists_holds_of_grow hopen hgrow
  obtain ⟨sites, hsites⟩ :=
    he.exists_covers h.names h.bindings h.length_literals hcode.left
  refine ⟨sites, hsites.mono (Nat.le_refl _) ?_⟩
  simp only [Draft.append, List.length_append]
  omega

theorem Draft.count_le_leave (d : Draft) (next position : Nat) :
    d.count ≤ (d.leave next position).count := by
  rw [leave, enter, proceed]
  split
  · exact Nat.le_refl _
  · exact Nat.le_succ _

theorem Draft.count_bindAll (d : Draft) (names : List (Token × Ir.Parameter × Nat)) :
    (d.bindAll names).count = d.count := by
  induction names generalizing d with
  | nil => rfl
  | cons entry rest ih => exact ih _

mutual

theorem LowersBlock.exists_covers {block : Block} {s : Scope} {b b' : Build} :
    LowersBlock width block b b' → b.draft.IsOpen → Matches ret types s b →
      Grow b'.draft.blocks blocks → ∃ sites, Covers width types blocks b.draft.count b'.draft.count
        (block.occurrences s) sites
  | .mk hitems, hopen, h, hgrow => hitems.exists_covers hopen h hgrow

theorem LowersItems.exists_covers {items : List Stmt} {s : Scope} {b b' : Build} :
    LowersItems width items b b' → b.draft.IsOpen → Matches ret types s b →
      Grow b'.draft.blocks blocks → ∃ sites, Covers width types blocks b.draft.count b'.draft.count
        (itemsOccurrences s items) sites
  | .nil, _, _, _ => ⟨[], .nil (Nat.le_refl _)⟩
  | .unreachable _ hclosed, hopen, _, _ => by
    rw [hopen.not_closed] at hclosed
    cases hclosed
  | @LowersItems.cons _ item rest _ b₁ _ _ hitem hrest, hopen, h, hgrow => by
    have hinside := (hitem.extends hopen).inside
    obtain ⟨hmatches, hcloses⟩ := hitem.matches hopen h
    obtain ⟨sites, hsites⟩ :=
      hitem.exists_covers hopen h ((hrest.extends hinside).grow.trans hgrow)
    rw [itemsOccurrences, ← hcloses]
    cases hclosed : b₁.draft.isClosed with
    | true =>
        rw [(hrest.of_closed hclosed).1]
        exact ⟨sites ++ [], hsites.append (.nil (Nat.le_refl _))⟩
    | false =>
        obtain ⟨others, hothers⟩ := hrest.exists_covers ⟨hinside, hclosed⟩ hmatches hgrow
        exact ⟨sites ++ others, hsites.append hothers⟩

theorem Lowers.exists_covers {stmt : Stmt} {s : Scope} {b b' : Build} :
    Lowers width stmt b b' → b.draft.IsOpen → Matches ret types s b →
      Grow b'.draft.blocks blocks → ∃ sites, Covers width types blocks b.draft.count b'.draft.count
        (stmt.occurrences s) sites
  | .block hbody, hopen, h, hgrow => hbody.exists_covers hopen h hgrow
  | .ifThen c code test he _ hyes, hopen, h, hgrow => by
    have hcode := Draft.isOpen_append hopen (code ++ test)
    obtain ⟨hextends, hfork⟩ := Draft.extends_forkThen hcode c
    have hyesExtends := hyes.extends hfork.inside
    have hgrowYes := (Draft.extends_proceed hyesExtends.inside _).grow.trans hgrow
    have hgrowFork := hyesExtends.grow.trans hgrowYes
    have hmatches := (h.emit he test).withDraft (f := (·.forkThen c)) rfl rfl rfl
    obtain ⟨sites, hsites⟩ := h.exists_covers hopen he (hextends.grow.trans hgrowFork)
    obtain ⟨others, hothers⟩ := hyes.exists_covers hfork.isOpen hmatches hgrowYes
    exact ⟨sites ++ others, hsites.append
      (hothers.mono (Nat.le_succ _) (Draft.count_le_leave _ _ _))⟩
  | .ifElse c code test he _ hyes hno, hopen, h, hgrow => by
    have hcode := Draft.isOpen_append hopen (code ++ test)
    obtain ⟨hextends, hfork⟩ := Draft.extends_forkElse hcode c
    have hyesExtends := hyes.extends hfork.inside
    have hother := (Draft.extends_leave_yes hcode hyesExtends).2
    rw [Draft.length_blocks_append] at hother
    have hnoExtends := hno.extends hother.inside
    have hgrowNo := (Draft.extends_proceed hnoExtends.inside _).grow.trans hgrow
    have hgrowYes := (Draft.extends_proceed hyesExtends.inside _).grow.trans
      (hnoExtends.grow.trans hgrowNo)
    have hgrowFork := hyesExtends.grow.trans hgrowYes
    have hmatches := (h.emit he test).withDraft (f := (·.forkElse c)) rfl rfl rfl
    have hmatchesNo := (hyes.matches hfork.isOpen hmatches).1.leave
      (b.draft.blocks.length + 2) (b.draft.blocks.length + 1)
    obtain ⟨sites, hsites⟩ := h.exists_covers hopen he (hextends.grow.trans hgrowFork)
    obtain ⟨sitesYes, hsitesYes⟩ := hyes.exists_covers hfork.isOpen hmatches hgrowYes
    obtain ⟨sitesNo, hsitesNo⟩ := hno.exists_covers hother.isOpen hmatchesNo hgrowNo
    exact ⟨sites ++ sitesYes ++ sitesNo, (hsites.append
      (hsitesYes.mono (Nat.le_succ _) (Draft.count_le_leave _ _ _))).append
      (hsitesNo.mono (Nat.le_refl _) (Draft.count_le_leave _ _ _))⟩
  | .ret code coerce _ he _, hopen, h, hgrow => by
    have hcode := Draft.isOpen_append hopen (code ++ coerce)
    obtain ⟨sites, hsites⟩ :=
      h.exists_covers hopen he ((Draft.extends_close hcode _).grow.trans hgrow)
    exact ⟨sites, hsites.mono (Nat.le_refl _) (Nat.le_succ _)⟩
  | .directive _, _, _, _ => ⟨[], .nil (Nat.le_of_eq (Draft.count_bindAll _ _).symm)⟩

end

end Statements

/-- A function that a declaration was lowered to, behind these string literals. -/
structure Realizes (width : Nat) (literals : List String) (d : FunctionDecl)
    (f : Ir.Function) : Prop where
  signature : d.signature.lower width = .ok (f.ret, f.parameters.map (·.type))
  lowered : ∃ strings events b, strings.map (·.text) = literals ∧
    d.lower width ⟨Draft.start f.ret (Emitter.parametersOf (f.parameters.map (·.type))), strings,
      events⟩ = (.ok (), b) ∧ f.parameters = b.draft.parameters ∧ f.blocks = b.draft.blocks

namespace Realizes

variable {width : Nat} {literals : List String} {d : FunctionDecl} {f : Ir.Function}

theorem argsFit {args : List Word} (h : Realizes width literals d f)
    (hargs : d.signature.Takes width args) : ArgsFit (f.parameters.map (·.type)) args :=
  .of_kinds ((Signature.kinds_of_lower h.signature).2.symm.trans hargs)

/-- The body was lowered from the start of the function on. -/
theorem exists_lowersBlock (h : Realizes width literals d f) :
    ∃ strings events b, strings.map (·.text) = literals ∧
      LowersBlock width d.body
        ⟨Draft.start f.ret (Emitter.parametersOf (f.parameters.map (·.type))), strings, events⟩ b ∧
      Ir.Grow b.draft.blocks f.blocks := by
  obtain ⟨strings, _, _, hstrings, hlower, -, hblocks⟩ := h.lowered
  obtain ⟨events, b, hlowers, rfl⟩ := FunctionDecl.lowers_of_lower hlower
  have hopen := Draft.isOpen_start f.ret (Emitter.parametersOf (f.parameters.map (·.type)))
  have hinside := (hlowers.extends hopen.inside).inside
  rw [hblocks]
  exact ⟨strings, events, b, hstrings, hlowers, (Draft.extends_finish hinside).grow⟩

theorem length_parameters (h : Realizes width literals d f) :
    f.parameters.length = d.signature.args.length := by
  have hkinds := congrArg List.length (Signature.kinds_of_lower h.signature).2
  simpa using hkinds.symm

/-- Each live expression of the function has its code in it. -/
theorem exists_covers (h : Realizes width literals d f) :
    ∃ first last sites, Covers width (f.parameters.map (·.type)) f.blocks first last
      (d.occurrences literals) sites := by
  obtain ⟨strings, events, b, hstrings, hlowers, hgrow⟩ := h.exists_lowersBlock
  obtain ⟨sites, hsites⟩ :=
    hlowers.exists_covers (Draft.isOpen_start f.ret _) (.start hstrings) hgrow
  exact ⟨_, _, sites, hsites⟩

theorem exists_site (h : Realizes width literals d f) {p : Occurrence}
    (hp : p ∈ d.occurrences literals) :
    ∃ site, Emitted width (f.parameters.map (·.type)) f.blocks p site := by
  obtain ⟨_, _, sites, hsites⟩ := h.exists_covers
  obtain ⟨k, hk, rfl⟩ := List.getElem_of_mem hp
  exact ⟨_, hsites.emitted.get hk (hsites.emitted.length_eq ▸ hk)⟩

end Realizes

theorem FunctionDecl.realizes_of_lower {width : Nat} {ret : Ty} {types : List Ty} {d : FunctionDecl}
    {literals : List String} {strings : List StringConstant} {events : List Event} {b : Build}
    (hstrings : strings.map (·.text) = literals)
    (hsignature : d.signature.lower width = .ok (ret, types))
    (h : d.lower width ⟨Draft.start ret (Emitter.parametersOf types), strings, events⟩ =
      (.ok (), b)) :
    b.strings.map (·.text) = d.literalsAfter literals ∧
      Realizes width literals d ⟨d.name.text, ret, b.draft.parameters, b.draft.blocks⟩ := by
  obtain ⟨_, b₁, hlowers, rfl⟩ := FunctionDecl.lowers_of_lower h
  have hopen := Draft.isOpen_start ret (Emitter.parametersOf types)
  obtain ⟨hmatches, -⟩ := hlowers.matches hopen (.start hstrings)
  obtain rfl : b₁.draft.finish.parameters.map (·.type) = types := by
    rw [Draft.parameters_finish]
    exact hmatches.parameters
  exact ⟨hmatches.literals, hsignature, strings, events, _, hstrings, h, rfl, rfl⟩

/-- The string constants are the live literals, and each function is emitted for its declaration. -/
theorem Defines.realizes {width : Nat} {declarations : List FunctionDecl}
    {literals : List String} {strings strings' : List StringConstant}
    {functions : List Ir.Function}
    (h : Defines width declarations strings functions strings')
    (hstrings : strings.map (·.text) = literals) :
    strings'.map (·.text) = declarations.foldl FunctionDecl.literalsAfter literals ∧
      ∀ (i : Nat) (d : FunctionDecl) (f : Ir.Function), declarations[i]? = some d →
        functions[i]? = some f →
        Realizes width ((declarations.take i).foldl FunctionDecl.literalsAfter literals) d f :=
  h.forall_of_lower FunctionDecl.realizes_of_lower hstrings

namespace Emitter

variable {program : Program} {width : Nat} {e : Emitter} {name triple text : String}

theorem realizes_of_emit (hemit : (new program width name triple).emit = (.ok text, e)) {i : Nat}
    {d : FunctionDecl} {f : Ir.Function} (hd : program.declarations[i]? = some d)
    (hf : e.module.functions[i]? = some f) :
    Realizes width (literalsOf (program.declarations.take i)) d f :=
  ((defines_of_emit hemit).1.realizes rfl).2 i d f hd hf

/-- A source that is emitted, whose declarations and functions have a property. -/
theorem exists_emit_of_any (width : Nat) (source : String)
    (P : List FunctionDecl → List Ir.Function → Bool)
    (h : ((Program.parse source).toOption.any fun program =>
      let run := (new program width "main" unknownTriple).emit
      run.1.isOk && P program.declarations run.2.module.functions) = true) :
    ∃ program text e, Program.parse source = .ok program ∧
      (new program width "main" unknownTriple).emit = (.ok text, e) ∧
      P program.declarations e.module.functions = true := by
  obtain ⟨program, hparse, h⟩ := Program.exists_parse_of_any h
  obtain ⟨hok, hP⟩ := Bool.and_eq_true_iff.mp h
  rcases hemit : (new program width "main" unknownTriple).emit with ⟨p | text, e⟩
  · rw [hemit] at hok
    cases hok
  · rw [hemit] at hP
    exact ⟨program, text, e, hparse, hemit, hP⟩

/-- A source that is emitted, whose first function has a property. -/
theorem exists_function_of_any (width : Nat) (source : String)
    (P : FunctionDecl → Ir.Function → Bool) (h : ((Program.parse source).toOption.any fun program =>
      let run := (new program width "main" unknownTriple).emit
      run.1.isOk && program.declarations.head?.any fun d =>
        run.2.module.functions.head?.any fun f => P d f) = true) :
    ∃ program text e d f, Program.parse source = .ok program ∧
      (new program width "main" unknownTriple).emit = (.ok text, e) ∧
      program.declarations[0]? = some d ∧ e.module.functions[0]? = some f ∧ P d f = true := by
  obtain ⟨program, text, e, hparse, hemit, hany⟩ := exists_emit_of_any width source
    (fun declarations functions => declarations.head?.any fun d => functions.head?.any (P d)) h
  obtain ⟨d, hd, hany⟩ := (Option.any_eq_true _ _).mp hany
  obtain ⟨f, hf, hP⟩ := (Option.any_eq_true _ _).mp hany
  rw [List.head?_eq_getElem?] at hd hf
  exact ⟨program, text, e, d, f, hparse, hemit, hd, hf, hP⟩

end Emitter

end KestrelCompiler
