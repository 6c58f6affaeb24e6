import KestrelCompiler.Proofs.Occurrences.Site

/-!
Live statements. Each of them was lowered somewhere in the finished function. A conditional is
behind the code of its condition the end of a block, which branches to the block where the first of
its branches begins.
-/

namespace KestrelCompiler

open Ir (Ty Value Instruction StringConstant Results Grow execute)

/-- The condition of a conditional with its branches, of which the second may be missing. -/
def Stmt.conditional? : Stmt → Option (Expr × Block × Option Block)
  | ifThen _ condition yes => some (condition, yes, none)
  | ifElse _ condition yes no => some (condition, yes, some no)
  | block _ | ret _ _ | directive _ _ _ => none

/-- A statement of the live text. -/
structure LiveStatement where
  /-- The scope before the statement. -/
  scope : Scope
  statement : Stmt

mutual

def Block.statements (s : Scope) : Block → List LiveStatement
  | .mk _ items _ => itemsStatements s items

/-- Dead statements are left out. -/
def itemsStatements (s : Scope) : List Stmt → List LiveStatement
  | [] => []
  | item :: rest =>
    item.statements s ++ if item.closes then [] else itemsStatements (item.after s) rest

/-- A statement and those inside it. -/
def Stmt.statements (s : Scope) : Stmt → List LiveStatement
  | .block body => ⟨s, .block body⟩ :: body.statements s
  | .ifThen keyword condition yes =>
    ⟨s, .ifThen keyword condition yes⟩ :: yes.statements (condition.after s)
  | .ifElse keyword condition yes no =>
    ⟨s, .ifElse keyword condition yes no⟩ ::
      (yes.statements (condition.after s) ++ no.statements (yes.after (condition.after s)))
  | .ret marker value => [⟨s, .ret marker value⟩]
  | .directive name bang args => [⟨s, .directive name bang args⟩]

end

/-- The live statements of a function, behind these string literals. -/
def FunctionDecl.statements (literals : List String) (d : FunctionDecl) : List LiveStatement :=
  d.body.statements { literals }

/-- Where a conditional stands in a function: the code and the test of its condition are the end of
a block, which branches to the blocks at `yes` and `no`. -/
structure Fork where
  block : Nat
  code : List Instruction
  condition : Value
  yes : Nat
  no : Nat

namespace Fork

def exit (fork : Fork) : Ir.Exit :=
  .branch fork.condition fork.yes fork.no

def Stands (blocks : List Ir.Block) (fork : Fork) : Prop :=
  ∃ label before, blocks[fork.block]? = some ⟨label, before ++ fork.code, some fork.exit⟩

/-- With any earlier results the code is executed to its end, and then the execution goes on at
`yes` if the fork is `taken`, and at `no` otherwise. -/
def Goes (args : List Word) (fork : Fork) (taken : Bool) : Prop :=
  ∀ results, ∃ results', execute args results fork.code = some results' ∧
    fork.exit.step args results' =
      some (.running (if taken then fork.yes else fork.no) 0 results')

end Fork

namespace Draft

variable {d : Draft} {b : Ir.Block}

theorem getElem?_blocks_close (hb : d.blocks[d.current]? = some b) (exit : Ir.Exit) :
    (d.close exit).blocks[d.current]? = some { b with exit := some exit } := by
  simp [close, hb]

theorem getElem?_blocks_append (hb : d.blocks[d.current]? = some b) (code : List Instruction) :
    (d.append code).blocks[d.current]? =
      some { b with instructions := b.instructions ++ code } := by
  simp [append, hb]

theorem getElem?_blocks_forkThen (hb : d.blocks[d.current]? = some b) (c : Value) :
    (d.forkThen c).blocks[d.current]? =
      some { b with exit := some (.branch c d.blocks.length (d.blocks.length + 1)) } := by
  have hlt := (List.getElem?_eq_some_iff.mp hb).1
  refine getElem?_blocks_close (d := (d.addBlockAfter ".if").addBlockAfter ".endif") ?_ _
  have hif := (getElem?_blocks_addBlockAfter hlt ".if").trans hb
  exact (getElem?_blocks_addBlockAfter (List.getElem?_eq_some_iff.mp hif).1 ".endif").trans hif

theorem getElem?_blocks_forkElse (hb : d.blocks[d.current]? = some b) (c : Value) :
    (d.forkElse c).blocks[d.current]? =
      some { b with exit := some (.branch c d.blocks.length (d.blocks.length + 1)) } := by
  have hlt := (List.getElem?_eq_some_iff.mp hb).1
  refine getElem?_blocks_close
    (d := ((d.addBlockAfter ".if").addBlockAfter ".else").addBlockAfter ".endif") ?_ _
  have hif := (getElem?_blocks_addBlockAfter hlt ".if").trans hb
  have helse := (getElem?_blocks_addBlockAfter (List.getElem?_eq_some_iff.mp hif).1 ".else").trans
    hif
  exact (getElem?_blocks_addBlockAfter (List.getElem?_eq_some_iff.mp helse).1 ".endif").trans helse

end Draft

/-- A block that is closed is one of the finished function. -/
theorem Ir.Grow.getElem?_of_closed {blocks blocks' : List Ir.Block} (h : Grow blocks blocks')
    {i : Nat} {b : Ir.Block} (hb : blocks[i]? = some b) (hclosed : b.exit.isSome = true) :
    blocks'[i]? = some b := by
  obtain ⟨b', hb', hgrows⟩ := h i b hb
  rw [hb', hgrows.closed hclosed]

section Placed

variable (width : Nat) (ret : Ty) (types : List Ty) (blocks : List Ir.Block)

/-- The statement was lowered with the names of its scope, and what became of it is in the function
with these blocks. -/
def Placed (p : LiveStatement) : Prop :=
  ∃ b b', Lowers width p.statement b b' ∧ b.draft.IsOpen ∧ Matches ret types p.scope b ∧
    Grow b'.draft.blocks blocks

/-- The statements were lowered with the names of a scope, from the start of the block at a position
on. -/
def BeginsAt (s : Scope) (block : Block) (position : Nat) : Prop :=
  ∃ b b', LowersBlock width block b b' ∧ b.draft.IsFresh ∧ b.draft.current = position ∧
    Matches ret types s b ∧ Grow b'.draft.blocks blocks

/-- A conditional that was lowered behind a build, with the names of a scope, has become the
fork. -/
structure BecomesFork (s : Scope) (b : Build) (condition : Expr) (yes : Block) (no : Option Block)
    (fork : Fork) : Prop where
  stands : fork.Stands blocks
  code : ∃ code test texts v, fork.code = code ++ test ∧
    Compiles width b.draft.bindings b.draft.count b.strings.length condition code texts v ∧
    Tests (b.draft.count + code.length) v test fork.condition
  apart : fork.no = fork.yes + 1
  first : BeginsAt width ret types blocks (condition.after s) yes fork.yes
  second : ∀ block, no = some block →
    BeginsAt width ret types blocks (yes.after (condition.after s)) block fork.no

end Placed

variable {width : Nat} {ret : Ty} {types : List Ty} {blocks : List Ir.Block} {s : Scope}
  {b b' : Build}

/-- What a conditional is lowered to, with or without a second branch. -/
theorem Lowers.becomesFork {stmt : Stmt} {condition : Expr} {yes : Block} {no : Option Block}
    (h : Lowers width stmt b b') (hstmt : stmt.conditional? = some (condition, yes, no))
    (hopen : b.draft.IsOpen) (hmatches : Matches ret types s b)
    (hgrow : Grow b'.draft.blocks blocks) :
    ∃ fork, BecomesFork width ret types blocks s b condition yes no fork := by
  obtain ⟨first, hfirst, -⟩ := hopen.exists_block
  cases h with
  | block _ => cases hstmt
  | ret _ _ _ _ _ => cases hstmt
  | directive _ => cases hstmt
  | ifThen c code test he htest hyes =>
      cases hstmt
      have hcode := Draft.isOpen_append hopen (code ++ test)
      obtain ⟨-, hfork⟩ := Draft.extends_forkThen hcode c
      have hyesExtends := hyes.extends hfork.inside
      have hgrowYes := (Draft.extends_proceed hyesExtends.inside _).grow.trans hgrow
      have hforked := (hyesExtends.grow.trans hgrowYes).getElem?_of_closed
        (Draft.getElem?_blocks_forkThen (Draft.getElem?_blocks_append hfirst _) c) rfl
      have hyesMatches := (hmatches.emit he test).withDraft (f := (·.forkThen c)) rfl rfl rfl
      refine ⟨⟨b.draft.current, code ++ test, c, _, _⟩, ⟨_, _, hforked⟩,
        ⟨code, test, _, _, rfl, he, htest⟩, rfl,
        ⟨_, _, hyes, hfork, rfl, hyesMatches, hgrowYes⟩, fun _ hno => ?_⟩
      cases hno
  | @ifElse _ _ _ _ _ b₁ b₂ _ _ c code test he htest hyes hno =>
      cases hstmt
      have hcode := Draft.isOpen_append hopen (code ++ test)
      obtain ⟨-, hfork⟩ := Draft.extends_forkElse hcode c
      have hyesExtends := hyes.extends hfork.inside
      have hother := (Draft.extends_leave_yes hcode hyesExtends).2
      rw [Draft.length_blocks_append] at hother
      have hnoExtends := hno.extends hother.inside
      have hgrowNo := (Draft.extends_proceed hnoExtends.inside _).grow.trans hgrow
      have hgrowYes := (Draft.extends_proceed hyesExtends.inside _).grow.trans
        (hnoExtends.grow.trans hgrowNo)
      have hforked := (hyesExtends.grow.trans hgrowYes).getElem?_of_closed
        (Draft.getElem?_blocks_forkElse (Draft.getElem?_blocks_append hfirst _) c) rfl
      have hyesMatches := (hmatches.emit he test).withDraft (f := (·.forkElse c)) rfl rfl rfl
      have hnoMatches := (hyes.matches hfork.isOpen hyesMatches).1.leave
        (b.draft.blocks.length + 2) (b.draft.blocks.length + 1)
      refine ⟨⟨b.draft.current, code ++ test, c, _, _⟩, ⟨_, _, hforked⟩,
        ⟨code, test, _, _, rfl, he, htest⟩, rfl,
        ⟨_, _, hyes, hfork, rfl, hyesMatches, hgrowYes⟩, fun _ hsome => ?_⟩
      cases hsome
      have hposition := Draft.length_blocks_append b.draft (code ++ test)
      exact ⟨_, _, hno, hother, congrArg (· + 1) hposition.symm, hnoMatches, hgrowNo⟩

mutual

theorem Block.placed {s : Scope} {b b' : Build} : ∀ block : Block,
    LowersBlock width block b b' → b.draft.IsOpen → Matches ret types s b →
      Grow b'.draft.blocks blocks → ∀ p ∈ block.statements s, Placed width ret types blocks p
  | .mk _ items _, .mk h, hopen, hmatches, hgrow, p, hp =>
    placed_items items h hopen hmatches hgrow p hp

theorem placed_items {s : Scope} {b b' : Build} : ∀ items : List Stmt,
    LowersItems width items b b' → b.draft.IsOpen → Matches ret types s b →
      Grow b'.draft.blocks blocks → ∀ p ∈ itemsStatements s items, Placed width ret types blocks p
  | [], _, _, _, _, _, hp => absurd hp List.not_mem_nil
  | item :: rest, h, hopen, hmatches, hgrow, p, hp => by
    cases h with
    | unreachable _ hclosed =>
        rw [hopen.not_closed] at hclosed
        cases hclosed
    | @cons _ _ _ b₁ _ _ hitem hrest =>
        have hinside := (hitem.extends hopen).inside
        rw [itemsStatements, List.mem_append] at hp
        rcases hp with hp | hp
        · exact Stmt.placed item hitem hopen hmatches
            ((hrest.extends hinside).grow.trans hgrow) p hp
        split at hp
        · cases hp
        · next hlive =>
            obtain ⟨hafter, hcloses⟩ := hitem.matches hopen hmatches
            have hopen₁ : b₁.draft.IsOpen :=
              ⟨hinside, hcloses.trans (Bool.eq_false_iff.mpr hlive)⟩
            exact placed_items rest hrest hopen₁ hafter hgrow p hp

theorem Stmt.placed {s : Scope} {b b' : Build} : ∀ stmt : Stmt,
    Lowers width stmt b b' → b.draft.IsOpen → Matches ret types s b →
      Grow b'.draft.blocks blocks → ∀ p ∈ stmt.statements s, Placed width ret types blocks p
  | .block body, h, hopen, hmatches, hgrow, p, hp => by
    rcases List.mem_cons.mp hp with rfl | hp
    · exact ⟨b, b', h, hopen, hmatches, hgrow⟩
    · cases h with
      | block hbody => exact Block.placed body hbody hopen hmatches hgrow p hp
  | .ifThen keyword condition yes, h, hopen, hmatches, hgrow, p, hp => by
    rcases List.mem_cons.mp hp with rfl | hp
    · exact ⟨b, b', h, hopen, hmatches, hgrow⟩
    · obtain ⟨fork, hfork⟩ := h.becomesFork rfl hopen hmatches hgrow
      obtain ⟨b₁, b₂, hyes, hfresh, -, hinner, hgrowYes⟩ := hfork.first
      exact Block.placed yes hyes hfresh.isOpen hinner hgrowYes p hp
  | .ifElse keyword condition yes no, h, hopen, hmatches, hgrow, p, hp => by
    rcases List.mem_cons.mp hp with rfl | hp
    · exact ⟨b, b', h, hopen, hmatches, hgrow⟩
    · obtain ⟨fork, hfork⟩ := h.becomesFork rfl hopen hmatches hgrow
      rcases List.mem_append.mp hp with hp | hp
      · obtain ⟨b₁, b₂, hyes, hfresh, -, hinner, hgrowYes⟩ := hfork.first
        exact Block.placed yes hyes hfresh.isOpen hinner hgrowYes p hp
      · obtain ⟨b₁, b₂, hno, hfresh, -, hinner, hgrowNo⟩ := hfork.second no rfl
        exact Block.placed no hno hfresh.isOpen hinner hgrowNo p hp
  | .ret _ _, h, hopen, hmatches, hgrow, p, hp => by
    obtain rfl := List.mem_singleton.mp hp
    exact ⟨b, b', h, hopen, hmatches, hgrow⟩
  | .directive _ _ _, h, hopen, hmatches, hgrow, p, hp => by
    obtain rfl := List.mem_singleton.mp hp
    exact ⟨b, b', h, hopen, hmatches, hgrow⟩

end

namespace Realizes

variable {literals : List String} {d : FunctionDecl} {f : Ir.Function}

/-- Each live statement of a declaration has become a part of its function. -/
theorem placed (h : Realizes width literals d f) {p : LiveStatement}
    (hp : p ∈ d.statements literals) :
    Placed width f.ret (f.parameters.map (·.type)) f.blocks p := by
  obtain ⟨strings, events, b, hstrings, hlowers, hgrow⟩ := h.exists_lowersBlock
  exact d.body.placed hlowers (Draft.isOpen_start f.ret _) (.start hstrings) hgrow p hp

/-- What the evaluation of the body returns, the function returns. -/
theorem returns_of_run (h : Realizes width literals d f) {args : List Word}
    (hargs : d.signature.Takes width args) {w : Word}
    (hrun : d.body.run width args (d.signature.result? width) { literals } =
      some (.returned w)) : f.Returns args (some w) := by
  have hfit := h.argsFit hargs
  rw [(Signature.kinds_of_lower h.signature).1] at hrun
  obtain ⟨strings, events, b, hstrings, hlowers, hgrow⟩ := h.exists_lowersBlock
  have hsimulates := hlowers.simulates (Draft.isOpen_start f.ret _) (.start hstrings) hfit hgrow
    fun _ => none
  rw [hrun] at hsimulates
  cases hsimulates with
  | returned hsteps => exact hsteps

end Realizes

end KestrelCompiler
