import KestrelCompiler.Proofs.Meaning.Liveness

/-!
Meaning of the code of statements. The blocks that are executed are those of the finished function;
a point of a draft is also one of theirs, since a draft only grows. A statement that ends leads from
the point before it to the point behind it, and a return ends the execution.
-/

namespace KestrelCompiler

open Ir (Ty Value Instruction StringConstant Results State Steps Grow execute)

/-- The end of the current block. -/
def Draft.point (d : Draft) (results : Results) : State :=
  .running d.current ((d.currentBlock?.map (·.instructions.length)).getD 0) results

section Points

variable {blocks : List Ir.Block} {args : List Word} {d : Draft} {results results' : Results}

theorem Draft.IsFresh.point (h : d.IsFresh) (results : Results) :
    d.point results = .running d.current 0 results := by
  obtain ⟨label, hb⟩ := h
  rw [Draft.point, hb]
  rfl

theorem point_addBlockAfter (h : d.current < d.blocks.length) (suffix : String) :
    (d.addBlockAfter suffix).point results = d.point results := by
  have hsame : (d.addBlockAfter suffix).currentBlock? = d.currentBlock? :=
    Draft.getElem?_blocks_addBlockAfter h suffix
  rw [Draft.point, Draft.point, hsame]
  rfl

theorem steps_bindAll (d : Draft) (names : List (Token × Ir.Parameter × Nat)) (results : Results) :
    Steps blocks args (d.point results) ((d.bindAll names).point results) := by
  obtain ⟨hblocks, hcurrent, -⟩ := Draft.blocks_bindAll d names
  rw [Draft.point, Draft.point, Draft.currentBlock?, Draft.currentBlock?, hblocks, hcurrent]
  exact .refl

/-- Code that was appended is executed. -/
theorem steps_append {code : List Instruction} (hopen : d.IsOpen)
    (hgrow : Grow (d.append code).blocks blocks) (hrun : execute args results code = some results') :
    Steps blocks args (d.point results) ((d.append code).point results') := by
  obtain ⟨b, hb, -⟩ := hopen.exists_block
  have happend : (d.append code).blocks[d.current]? =
      some { b with instructions := b.instructions ++ code } := by
    simp [Draft.append, hb]
  obtain ⟨b', hb', hgrows⟩ := hgrow _ _ happend
  obtain ⟨more, hmore⟩ := hgrows.code
  have hsteps := Ir.steps_code hb' (hmore.symm.trans (List.append_assoc ..)) hrun
  rw [Draft.point, Draft.point, Draft.currentBlock?, Draft.currentBlock?]
  change Steps blocks args (.running d.current ((d.blocks[d.current]?.map _).getD 0) results)
    (.running d.current (((d.append code).blocks[d.current]?.map _).getD 0) results')
  rw [happend, hb]
  exact hsteps

/-- A block that was closed is left by its exit. -/
theorem step_close {exit : Ir.Exit} (hinside : d.current < d.blocks.length)
    (hgrow : Grow (d.close exit).blocks blocks) :
    Ir.step blocks args (d.point results) = exit.step args results := by
  have hb := List.getElem?_eq_getElem hinside
  have hclose : (d.close exit).blocks[d.current]? =
      some { d.blocks[d.current] with exit := some exit } := by
    simp [Draft.close, hb]
  obtain ⟨b', hb', hgrows⟩ := hgrow _ _ hclose
  obtain rfl := hgrows.closed rfl
  have hstep := @Ir.step_exit blocks args _ _ _ results hb' rfl
  rw [Draft.point, Draft.currentBlock?, hb]
  exact hstep

/-- A branch that was filled, and is open still, is left for the block that follows. -/
theorem steps_leave {next position : Nat} (hinside : d.current < d.blocks.length)
    (hopen : d.isClosed = false) (hgrow : Grow (d.leave next position).blocks blocks) :
    Steps blocks args (d.point results) (.running next 0 results) := by
  have hproceed : (d.leave next position).blocks = (d.close (.jump next)).blocks := by
    rw [Draft.leave, Draft.proceed, hopen]
    rfl
  rw [hproceed] at hgrow
  exact .single (step_close hinside hgrow)

end Points

theorem Stmt.run_ret {width : Nat} {args : List Word} {result : Option Kind} {s : Scope}
    {value : Expr} {w w' : Word} {kind : Kind} (marker : Token)
    (hw : value.eval width args s = some w) (hkind : result = some kind)
    (hw' : w.convert kind = some w') :
    (Stmt.ret marker value).run width args result s = some (.returned w') := by
  simp [Stmt.run, hw, hkind, hw']

/-- What the execution of a statement does to the point before it. -/
inductive Simulates (blocks : List Ir.Block) (args : List Word) (d d' : Draft)
    (results : Results) : Option Ending → Prop
  | returned {w : Word} :
    Steps blocks args (d.point results) (.returned (some w)) →
    Simulates blocks args d d' results (some (.returned w))
  | next {results' : Results} : d'.isClosed = false →
    Steps blocks args (d.point results) (d'.point results') →
    Simulates blocks args d d' results (some .next)

/-- Steps before a statement. -/
theorem Simulates.before {blocks : List Ir.Block} {args : List Word} {d d₁ d' : Draft}
    {results results₁ : Results} {ending : Option Ending}
    (hsteps : Steps blocks args (d.point results) (d₁.point results₁))
    (h : Simulates blocks args d₁ d' results₁ ending) :
    Simulates blocks args d d' results ending := by
  cases h with
  | returned hreturned => exact .returned (hsteps.trans hreturned)
  | next hopen hnext => exact .next hopen (hsteps.trans hnext)

/-- A branch ends at the block `next`, which is where the conditional ends. -/
theorem Simulates.leave {blocks : List Ir.Block} {args : List Word} {d d' last : Draft}
    {results : Results} {ending : Option Ending} {next position : Nat}
    (h : Simulates blocks args d d' results ending) (hinside : d'.current < d'.blocks.length)
    (hgrow : Grow (d'.leave next position).blocks blocks) (hlast : last.IsFresh)
    (hcurrent : last.current = next) : Simulates blocks args d last results ending := by
  cases h with
  | returned hreturned => exact .returned hreturned
  | @next results' hopen hnext =>
      have hleave : Steps blocks args (d'.point results') (last.point results') := by
        rw [hlast.point results', hcurrent]
        exact steps_leave hinside hopen hgrow
      exact .next hlast.isOpen.not_closed (hnext.trans hleave)

/-- A fork leads into one of two empty blocks. -/
theorem Simulates.fork {blocks : List Ir.Block} {args : List Word} {d code yes no last : Draft}
    {results results' : Results} {w : Word} {ending ending' : Option Ending} {i j : Nat}
    (hsteps : Steps blocks args (d.point results) (code.point results'))
    (hstep : Ir.step blocks args (code.point results') =
      some (.running (if w.isTrue then i else j) 0 results'))
    (hyes : yes.IsFresh) (hi : yes.current = i) (hno : no.IsFresh) (hj : no.current = j)
    (hyesRun : Simulates blocks args yes last results' ending)
    (hnoRun : Simulates blocks args no last results' ending') :
    Simulates blocks args d last results (if w.isTrue then ending else ending') := by
  subst hi hj
  cases htrue : w.isTrue with
  | true =>
      rw [htrue, if_pos rfl, ← hyes.point results'] at hstep
      exact .before (hsteps.trans (.single hstep)) hyesRun
  | false =>
      rw [htrue, if_neg Bool.false_ne_true, ← hno.point results'] at hstep
      exact .before (hsteps.trans (.single hstep)) hnoRun

section Forks

variable {blocks : List Ir.Block} {args : List Word} {d : Draft} {results : Results} {c : Value}

theorem step_forkThen (hopen : d.IsOpen) (hgrow : Grow (d.forkThen c).blocks blocks) :
    Ir.step blocks args (d.point results) =
      (Ir.Exit.branch c d.blocks.length (d.blocks.length + 1)).step args results := by
  have hif := Draft.isOpen_addBlockAfter hopen ".if"
  have hendif := Draft.isOpen_addBlockAfter hif ".endif"
  rw [← point_addBlockAfter hopen.inside ".if", ← point_addBlockAfter hif.inside ".endif"]
  exact step_close hendif.inside hgrow

theorem step_forkElse (hopen : d.IsOpen) (hgrow : Grow (d.forkElse c).blocks blocks) :
    Ir.step blocks args (d.point results) =
      (Ir.Exit.branch c d.blocks.length (d.blocks.length + 1)).step args results := by
  have hif := Draft.isOpen_addBlockAfter hopen ".if"
  have helse := Draft.isOpen_addBlockAfter hif ".else"
  have hendif := Draft.isOpen_addBlockAfter helse ".endif"
  rw [← point_addBlockAfter hopen.inside ".if", ← point_addBlockAfter hif.inside ".else",
    ← point_addBlockAfter helse.inside ".endif"]
  exact step_close hendif.inside hgrow

end Forks

variable {width : Nat} {ret : Ty} {types : List Ty} {blocks : List Ir.Block} {args : List Word}

/-- The condition of a conditional is computed and tested. -/
theorem exists_condition {s : Scope} {b : Build} {condition : Expr} {code test : List Instruction}
    {texts : List StringConstant} {v c : Value} (h : Matches ret types s b)
    (hargs : ArgsFit types args) (hopen : b.draft.IsOpen)
    (he : Compiles width b.draft.bindings b.draft.count b.strings.length condition code texts v)
    (htest : Tests (b.draft.count + code.length) v test c)
    (hgrow : Grow (b.draft.append (code ++ test)).blocks blocks) (results : Results) :
    ∃ w results', condition.eval width args s = some w ∧
      Steps blocks args (b.draft.point results)
        ((b.draft.append (code ++ test)).point results') ∧
      ∀ yes no, (Ir.Exit.branch c yes no).step args results' =
        some (.running (if w.isTrue then yes else no) 0 results') := by
  obtain ⟨w, results₁, hw, heval⟩ :=
    he.evaluates h.names h.bindings hargs h.length_literals results
  obtain ⟨w', results₂, hkind, htrue, htested⟩ :=
    htest.evaluates heval.below heval.value heval.kind
  have hall := heval.append htested
  refine ⟨w, results₂, hw, steps_append hopen hgrow hall.run, fun yes no => ?_⟩
  rw [Ir.Exit.step, hall.value]
  simp [hkind, htrue]

theorem simulates_ret {s : Scope} {b : Build} {marker : Token} {value : Expr}
    {code coerce : List Instruction} {texts : List StringConstant} {v v' : Value}
    (h : Matches ret types s b) (hargs : ArgsFit types args) (hopen : b.draft.IsOpen)
    (hvalue : Compiles width b.draft.bindings b.draft.count b.strings.length value code texts v)
    (hcoerce : Coerces (b.draft.count + code.length) v b.draft.ret coerce v')
    (hgrow : Grow ((b.draft.append (code ++ coerce)).close (.ret v')).blocks blocks)
    (results : Results) :
    Simulates blocks args b.draft ((b.draft.append (code ++ coerce)).close (.ret v')) results
      ((Stmt.ret marker value).run width args ret.kind? s) := by
  have hcode := Draft.isOpen_append hopen (code ++ coerce)
  obtain ⟨w, results₁, hw, heval⟩ :=
    hvalue.evaluates h.names h.bindings hargs h.length_literals results
  obtain ⟨kind, w', results₂, hkind, hw', hcoerced⟩ :=
    hcoerce.evaluates heval.below heval.value heval.kind
  have hall := heval.append hcoerced
  have hsteps := steps_append hopen ((Draft.extends_close hcode _).grow.trans hgrow) hall.run
  have hstep := (step_close hcode.inside hgrow).trans (Ir.step_ret hall.value)
  rw [Stmt.run_ret _ hw (h.ret ▸ hkind) hw']
  exact .returned (hsteps.trans (.single hstep))

mutual

theorem LowersBlock.simulates {block : Block} {s : Scope} {b b' : Build} :
    LowersBlock width block b b' → b.draft.IsOpen → Matches ret types s b → ArgsFit types args →
      Grow b'.draft.blocks blocks → ∀ results, Simulates blocks args b.draft b'.draft results
        (block.run width args ret.kind? s)
  | .mk hitems, hopen, h, hargs, hgrow, results => hitems.simulates hopen h hargs hgrow results

theorem LowersItems.simulates {items : List Stmt} {s : Scope} {b b' : Build} :
    LowersItems width items b b' → b.draft.IsOpen → Matches ret types s b → ArgsFit types args →
      Grow b'.draft.blocks blocks → ∀ results, Simulates blocks args b.draft b'.draft results
        (runItems width args ret.kind? s items)
  | .nil, hopen, _, _, _, _ => .next hopen.not_closed .refl
  | .unreachable _ hclosed, hopen, _, _, _, _ => by
    rw [hopen.not_closed] at hclosed
    cases hclosed
  | .cons _ hitem hrest, hopen, h, hargs, hgrow, results => by
    have hinside := (hitem.extends hopen).inside
    have hrun := hitem.simulates hopen h hargs ((hrest.extends hinside).grow.trans hgrow) results
    rw [runItems]
    generalize Stmt.run width args ret.kind? s _ = ending at hrun ⊢
    cases hrun with
    | returned hreturned => exact .returned hreturned
    | @next results' hopen' hnext =>
        have hmatches := (hitem.matches hopen h).1
        exact .before hnext (hrest.simulates ⟨hinside, hopen'⟩ hmatches hargs hgrow results')

theorem Lowers.simulates {stmt : Stmt} {s : Scope} {b b' : Build} :
    Lowers width stmt b b' → b.draft.IsOpen → Matches ret types s b → ArgsFit types args →
      Grow b'.draft.blocks blocks → ∀ results, Simulates blocks args b.draft b'.draft results
        (stmt.run width args ret.kind? s)
  | .block hbody, hopen, h, hargs, hgrow, results => hbody.simulates hopen h hargs hgrow results
  | .ifThen c code test he htest hyes, hopen, h, hargs, hgrow, results => by
    have hcode := Draft.isOpen_append hopen (code ++ test)
    obtain ⟨hextends, hfork⟩ := Draft.extends_forkThen hcode c
    have hyesExtends := hyes.extends hfork.inside
    have hlast := (Draft.extends_leave_forkThen hcode hyesExtends).2
    rw [Draft.length_blocks_append] at hlast
    have hgrowYes := (Draft.extends_proceed hyesExtends.inside _).grow.trans hgrow
    have hgrowFork := hyesExtends.grow.trans hgrowYes
    obtain ⟨w, results', hw, hsteps, hexit⟩ := exists_condition h hargs hopen he htest
      (hextends.grow.trans hgrowFork) results
    have hstep := (step_forkThen hcode hgrowFork).trans (hexit _ _)
    have hmatches := (h.emit he test).withDraft (f := (·.forkThen c)) rfl rfl rfl
    have hyesRun := (hyes.simulates hfork.isOpen hmatches hargs hgrowYes results').leave
      hyesExtends.inside hgrow hlast rfl
    rw [Draft.length_blocks_append] at hstep
    rw [Stmt.run, hw]
    exact .fork hsteps hstep hfork (Draft.length_blocks_append _ _) hlast rfl hyesRun
      (.next hlast.isOpen.not_closed .refl)
  | .ifElse c code test he htest hyes hno, hopen, h, hargs, hgrow, results => by
    have hcode := Draft.isOpen_append hopen (code ++ test)
    obtain ⟨hextends, hfork⟩ := Draft.extends_forkElse hcode c
    have hyesExtends := hyes.extends hfork.inside
    have hother := (Draft.extends_leave_yes hcode hyesExtends).2
    rw [Draft.length_blocks_append] at hother
    have hnoExtends := hno.extends hother.inside
    have hlast := (Draft.extends_leave_no hcode hyesExtends (by
      rw [Draft.length_blocks_append]
      exact hnoExtends)).2
    rw [Draft.length_blocks_append] at hlast
    have hgrowNo := (Draft.extends_proceed hnoExtends.inside _).grow.trans hgrow
    have hgrowOther := hnoExtends.grow.trans hgrowNo
    have hgrowYes := (Draft.extends_proceed hyesExtends.inside _).grow.trans hgrowOther
    have hgrowFork := hyesExtends.grow.trans hgrowYes
    obtain ⟨w, results', hw, hsteps, hexit⟩ := exists_condition h hargs hopen he htest
      (hextends.grow.trans hgrowFork) results
    have hstep := (step_forkElse hcode hgrowFork).trans (hexit _ _)
    have hmatches := (h.emit he test).withDraft (f := (·.forkElse c)) rfl rfl rfl
    have hmatchesNo := (hyes.matches hfork.isOpen hmatches).1.leave
      (b.draft.blocks.length + 2) (b.draft.blocks.length + 1)
    have hyesRun := (hyes.simulates hfork.isOpen hmatches hargs hgrowYes results').leave
      hyesExtends.inside hgrowOther hlast rfl
    have hnoRun := (hno.simulates hother.isOpen hmatchesNo hargs hgrowNo results').leave
      hnoExtends.inside hgrow hlast rfl
    rw [Draft.length_blocks_append] at hstep
    rw [Stmt.run, hw]
    exact .fork hsteps hstep hfork (Draft.length_blocks_append _ _) hother rfl hyesRun hnoRun
  | .ret _ _ _ hvalue hcoerce, hopen, h, hargs, hgrow, results =>
    simulates_ret h hargs hopen hvalue hcoerce hgrow results
  | .directive _, hopen, _, _, _, results => by
    exact .next ((isClosed_bindAll _ _).trans hopen.not_closed) (steps_bindAll _ _ results)

end

end KestrelCompiler
