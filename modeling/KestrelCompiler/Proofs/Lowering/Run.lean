import KestrelCompiler.Proofs.Lowering.Code

/-!
Runs of the lowering of statements that meet no fault, as derivations along the statements. Every
draft on the way is written down, so that what holds of all of them is proved by induction.
-/

namespace KestrelCompiler

open Ir (Ty Value Instruction StringConstant)

namespace Draft

def enter (d : Draft) (position : Nat) : Draft :=
  { d with current := position }

/-- Closes the current block with a jump, unless it is closed already. -/
def proceed (d : Draft) (next : Nat) : Draft :=
  if d.isClosed then d else d.close (.jump next)

/-- Appends a block named after the current one. -/
def addBlockAfter (d : Draft) (suffix : String) : Draft :=
  (d.addBlock (labelAfter ((d.currentBlock?.map (·.label)).getD "") suffix)).2

/-- Branches to a new block, which is entered, or past it. -/
def forkThen (d : Draft) (c : Value) : Draft :=
  (((d.addBlockAfter ".if").addBlockAfter ".endif").close
    (.branch c d.blocks.length (d.blocks.length + 1))).enter d.blocks.length

/-- Branches to one of two new blocks, the first of which is entered. -/
def forkElse (d : Draft) (c : Value) : Draft :=
  ((((d.addBlockAfter ".if").addBlockAfter ".else").addBlockAfter ".endif").close
    (.branch c d.blocks.length (d.blocks.length + 1))).enter d.blocks.length

/-- Leaves a branch for the block at `next` and goes on with the one at `position`. -/
def leave (d : Draft) (next position : Nat) : Draft :=
  (d.proceed next).enter position

def bindAll (d : Draft) : List (Token × Ir.Parameter × Nat) → Draft
  | [] => d
  | (name, parameter, position) :: rest => (d.bind name.text position parameter.type).bindAll rest

@[simp] theorem length_blocks_append (d : Draft) (code : List Instruction) :
    (d.append code).blocks.length = d.blocks.length :=
  List.length_modify ..

@[simp] theorem length_blocks_addBlockAfter (d : Draft) (suffix : String) :
    (d.addBlockAfter suffix).blocks.length = d.blocks.length + 1 :=
  List.length_append

@[simp] theorem length_blocks_close (d : Draft) (exit : Ir.Exit) :
    (d.close exit).blocks.length = d.blocks.length :=
  List.length_modify ..

@[simp] theorem length_blocks_forkThen (d : Draft) (c : Value) :
    (d.forkThen c).blocks.length = d.blocks.length + 2 := by
  change (Draft.close _ _).blocks.length = _
  simp

@[simp] theorem length_blocks_forkElse (d : Draft) (c : Value) :
    (d.forkElse c).blocks.length = d.blocks.length + 3 := by
  change (Draft.close _ _).blocks.length = _
  simp

@[simp] theorem length_blocks_leave (d : Draft) (next position : Nat) :
    (d.leave next position).blocks.length = d.blocks.length := by
  change (d.proceed next).blocks.length = _
  rw [proceed]
  split
  · rfl
  · exact length_blocks_close d _

theorem getElem?_blocks_addBlockAfter {d : Draft} {i : Nat} (h : i < d.blocks.length)
    (suffix : String) : (d.addBlockAfter suffix).blocks[i]? = d.blocks[i]? :=
  List.getElem?_append_left h

@[simp] theorem isClosed_append (d : Draft) (code : List Instruction) :
    (d.append code).isClosed = d.isClosed := by
  simp [isClosed, currentBlock?, append, Option.any_map]

/-- A new block is open, also where there was no current one. -/
@[simp] theorem isClosed_addBlockAfter (d : Draft) (suffix : String) :
    (d.addBlockAfter suffix).isClosed = d.isClosed := by
  rcases Nat.lt_trichotomy d.current d.blocks.length with hinside | hnew | hbeyond
  · exact congrArg (Option.any _) (getElem?_blocks_addBlockAfter hinside suffix)
  · simp [isClosed, currentBlock?, addBlockAfter, addBlock, hnew]
  · have hlength := Nat.le_of_lt hbeyond
    have hlength' : (d.addBlockAfter suffix).blocks.length ≤ d.current := by
      rw [length_blocks_addBlockAfter]
      exact hbeyond
    rw [isClosed, isClosed, currentBlock?, currentBlock?, List.getElem?_eq_none hlength]
    exact congrArg (Option.any _) (List.getElem?_eq_none hlength')

end Draft

@[simp] theorem Build.length_blocks_emit (b : Build) (code : List Instruction)
    (texts : List StringConstant) :
    (b.emit code texts).draft.blocks.length = b.draft.blocks.length :=
  Draft.length_blocks_append b.draft code

@[simp] theorem Build.isClosed_emit (b : Build) (code : List Instruction)
    (texts : List StringConstant) : (b.emit code texts).draft.isClosed = b.draft.isClosed :=
  Draft.isClosed_append b.draft code

def Build.withDraft (b : Build) (f : Draft → Draft) : Build :=
  { b with draft := f b.draft }

mutual

inductive LowersBlock (width : Nat) : Block → Build → Build → Prop
  | mk {left right : Token} {items : List Stmt} {b b' : Build} :
    LowersItems width items b b' → LowersBlock width (.mk left items right) b b'

inductive LowersItems (width : Nat) : List Stmt → Build → Build → Prop
  | nil {b : Build} : LowersItems width [] b b
  | unreachable {item : Stmt} {rest : List Stmt} {b : Build} (events : List Event) :
    b.draft.isClosed = true → LowersItems width (item :: rest) b { b with events }
  | cons {item : Stmt} {rest : List Stmt} {b b₁ b' : Build} :
    b.draft.isClosed = false → Lowers width item b b₁ → LowersItems width rest b₁ b' →
    LowersItems width (item :: rest) b b'

inductive Lowers (width : Nat) : Stmt → Build → Build → Prop
  | block {body : Block} {b b' : Build} :
    LowersBlock width body b b' → Lowers width (.block body) b b'
  | ifThen {keyword : Token} {condition : Expr} {yes : Block} {b b' : Build}
    {texts : List StringConstant} {v : Value} (c : Value) (code test : List Instruction) :
    Compiles width b.draft.bindings b.draft.count b.strings.length condition code texts v →
    Tests (b.draft.count + code.length) v test c →
    LowersBlock width yes ((b.emit (code ++ test) texts).withDraft (·.forkThen c)) b' →
    Lowers width (.ifThen keyword condition yes) b
      (b'.withDraft (·.leave (b.draft.blocks.length + 1) (b.draft.blocks.length + 1)))
  | ifElse {keyword : Token} {condition : Expr} {yes no : Block} {b b₁ b' : Build}
    {texts : List StringConstant} {v : Value} (c : Value) (code test : List Instruction) :
    Compiles width b.draft.bindings b.draft.count b.strings.length condition code texts v →
    Tests (b.draft.count + code.length) v test c →
    LowersBlock width yes ((b.emit (code ++ test) texts).withDraft (·.forkElse c)) b₁ →
    LowersBlock width no
      (b₁.withDraft (·.leave (b.draft.blocks.length + 2) (b.draft.blocks.length + 1))) b' →
    Lowers width (.ifElse keyword condition yes no) b
      (b'.withDraft (·.leave (b.draft.blocks.length + 2) (b.draft.blocks.length + 2)))
  | ret {marker : Token} {value : Expr} {b : Build} {texts : List StringConstant} {v v' : Value}
    (code coerce : List Instruction) :
    b.draft.ret ≠ .void →
    Compiles width b.draft.bindings b.draft.count b.strings.length value code texts v →
    Coerces (b.draft.count + code.length) v b.draft.ret coerce v' →
    Lowers width (.ret marker value) b
      ((b.emit (code ++ coerce) texts).withDraft (·.close (.ret v')))
  | directive {name bang : Token} {args : List Token} {b : Build} :
    args.length ≤ b.draft.parameters.length →
    Lowers width (.directive name bang args) b
      (b.withDraft (·.bindAll (args.zip b.draft.parameters.zipIdx)))

end

namespace Lower

variable {b b' : Build}

section Steps

variable {α : Type}

theorem draft_bind {next : Draft → Lower α} : (draft >>= next) b = next b.draft b :=
  rfl

theorem addString_bind {text : String} {next : Nat → Lower α} :
    (addString text >>= next) b =
      next b.strings.length { b with strings := b.strings ++ [⟨text⟩] } :=
  rfl

theorem update_bind {f : Draft → Draft} {next : Unit → Lower α} :
    (update f >>= next) b = next () (b.withDraft f) :=
  rfl

theorem close_of_open {exit : Ir.Exit} (hopen : b.draft.isClosed = false) :
    close exit b = (.ok (), b.withDraft (·.close exit)) :=
  onOpenBlock_of_open hopen

theorem close_bind {exit : Ir.Exit} {next : Unit → Lower α} (hopen : b.draft.isClosed = false) :
    (close exit >>= next) b = next () (b.withDraft (·.close exit)) :=
  Step.bind_of_ok (close_of_open hopen)

theorem close_eq_ok {exit : Ir.Exit} (h : close exit b = (.ok (), b')) :
    b.draft.isClosed = false ∧ b' = b.withDraft (·.close exit) := by
  obtain ⟨hopen, h⟩ := onOpenBlock_eq_ok.mp h
  cases h
  exact ⟨hopen, rfl⟩

theorem addBlockAfter_bind {suffix : String} {next : Nat → Lower α} :
    (addBlockAfter suffix >>= next) b =
      next b.draft.blocks.length (b.withDraft (·.addBlockAfter suffix)) :=
  rfl

theorem proceed_eq (next : Nat) :
    (do unless (← draft).isClosed do close (.jump next) : Lower Unit) =
      update (·.proceed next) := by
  funext b
  rw [draft_bind]
  split
  · next hclosed =>
      change (Except.ok (), b) = (Except.ok (), b.withDraft (·.proceed next))
      simp [Build.withDraft, Draft.proceed, hclosed]
  · next hopen =>
      rw [close_of_open (Bool.eq_false_iff.mpr hopen)]
      change (Except.ok (), b.withDraft (·.close (.jump next))) =
        (Except.ok (), b.withDraft (·.proceed next))
      simp [Build.withDraft, Draft.proceed, hopen]

theorem branch_bind {position next : Nat} {fill : Lower Unit} {rest : Unit → Lower α} :
    (branch position next fill >>= rest) b =
      (fill >>= fun _ => update (·.proceed next) >>= rest) (b.withDraft (·.enter position)) := by
  rw [branch, proceed_eq, Step.bind_assoc]
  exact congrFun (Step.bind_assoc fill _ rest) (b.withDraft (·.enter position))

end Steps

/-- What stands behind the condition of a statement with one branch. -/
theorem forkThen_eq (c : Value) (fill : Lower Unit) (hopen : b.draft.isClosed = false) :
    (do
      let inside ← addBlockAfter ".if"
      let next ← addBlockAfter ".endif"
      close (.branch c inside next)
      branch inside next fill
      enter next : Lower Unit) b =
    (fill >>= fun _ =>
      update (·.leave (b.draft.blocks.length + 1) (b.draft.blocks.length + 1)))
      (b.withDraft (·.forkThen c)) := by
  rw [addBlockAfter_bind, addBlockAfter_bind, close_bind (by simpa [Build.withDraft] using hopen),
    branch_bind]
  simp only [Build.withDraft, Draft.length_blocks_addBlockAfter]
  rfl

/-- What stands behind the condition of a statement with two branches. -/
theorem forkElse_eq (c : Value) (fill other : Lower Unit) (hopen : b.draft.isClosed = false) :
    (do
      let inside ← addBlockAfter ".if"
      let otherwise ← addBlockAfter ".else"
      let next ← addBlockAfter ".endif"
      close (.branch c inside otherwise)
      branch inside next fill
      branch otherwise next other
      enter next : Lower Unit) b =
    (fill >>= fun _ =>
      update (·.leave (b.draft.blocks.length + 2) (b.draft.blocks.length + 1)) >>= fun _ =>
      other >>= fun _ =>
      update (·.leave (b.draft.blocks.length + 2) (b.draft.blocks.length + 2)))
      (b.withDraft (·.forkElse c)) := by
  rw [addBlockAfter_bind, addBlockAfter_bind, addBlockAfter_bind,
    close_bind (by simpa [Build.withDraft] using hopen), branch_bind]
  simp only [Build.withDraft, Draft.length_blocks_addBlockAfter]
  refine congrArg (fun rest => (fill >>= rest) (b.withDraft (·.forkElse c))) ?_
  funext _ b'
  rw [update_bind, update_bind, branch_bind]
  rfl

theorem bindNames_eq_ok {names : List (Token × Ir.Parameter × Nat)}
    (h : bindNames names b = (.ok (), b')) : b' = b.withDraft (·.bindAll names) := by
  induction names generalizing b with
  | nil =>
      obtain ⟨-, rfl⟩ := Step.pure_eq_ok.mp h
      rfl
  | cons entry rest ih =>
      obtain ⟨name, parameter, position⟩ := entry
      obtain ⟨d, b₁, hrun, h⟩ := Step.bind_eq_ok.mp h
      cases hrun
      split at h
      · cases h
      · obtain ⟨_, b₁, hrun, h⟩ := Step.bind_eq_ok.mp h
        cases hrun
        exact ih h

end Lower

variable {width : Nat} {b b' : Build}

theorem lowerItems_of_open {block : Location} {item : Stmt} {rest : List Stmt}
    (hopen : b.draft.isClosed = false) : lowerItems width block (item :: rest) b =
      (item.lower width >>= fun _ => lowerItems width block rest) b := by
  rw [lowerItems, Lower.draft_bind, if_neg (by rw [hopen]; exact Bool.false_ne_true)]

/-- What stands behind a closed block is only noted. -/
theorem exists_lowerItems_of_closed (width : Nat) (block : Location) (items : List Stmt)
    (hclosed : b.draft.isClosed = true) :
    ∃ events, lowerItems width block items b = (.ok (), { b with events }) := by
  cases items with
  | nil => exact ⟨b.events, rfl⟩
  | cons item rest =>
      rw [lowerItems, Lower.draft_bind, if_pos hclosed]
      exact ⟨_, rfl⟩

theorem lowers_of_lowerReturn {marker : Token} {value : Expr}
    (h : lowerReturn width marker value b = (.ok (), b')) :
    Lowers width (.ret marker value) b b' := by
  obtain ⟨d, b₁, hrun, h⟩ := Step.bind_eq_ok.mp h
  cases hrun
  split at h
  · cases h
  · next hret =>
      obtain ⟨v, b₁, hrun, h⟩ := Step.bind_eq_ok.mp h
      obtain ⟨code, texts, hvalue, rfl⟩ := Expr.compiles_of_lower hrun
      obtain ⟨v', b₂, hrun, h⟩ := Step.bind_eq_ok.mp h
      obtain ⟨coerce, hcoerce, rfl⟩ := Lower.coerces_of_coerce hrun
      obtain ⟨-, rfl⟩ := Lower.close_eq_ok h
      rw [Build.emit_emit, List.append_nil]
      exact .ret code coerce hret hvalue hcoerce

theorem lowers_of_lowerDirective {name bang : Token} {args : List Token}
    (h : lowerDirective name args b = (.ok (), b')) :
    Lowers width (.directive name bang args) b b' := by
  unfold lowerDirective at h
  split at h
  · cases h
  · obtain ⟨d, b₁, hrun, h⟩ := Step.bind_eq_ok.mp h
    cases hrun
    cases hextra : args[b.draft.parameters.length]? with
    | some extra =>
        simp only [hextra] at h
        cases h
    | none =>
        simp only [hextra] at h
        rw [Lower.bindNames_eq_ok h]
        exact .directive (List.getElem?_eq_none_iff.mp hextra)

mutual

theorem lowersBlock_of_lower {b b' : Build} : ∀ block : Block,
    block.lower width b = (.ok (), b') → LowersBlock width block b b'
  | .mk left items _, h => .mk (lowersItems_of_lower left.span.start items h)

theorem lowersItems_of_lower {b b' : Build} (block : Location) : ∀ items : List Stmt,
    lowerItems width block items b = (.ok (), b') → LowersItems width items b b'
  | [], h => by
    obtain ⟨-, rfl⟩ := Step.pure_eq_ok.mp h
    exact .nil
  | item :: rest, h => by
    obtain ⟨d, b₁, hrun, h⟩ := Step.bind_eq_ok.mp h
    cases hrun
    split at h
    · next hclosed =>
        cases h
        exact .unreachable _ hclosed
    · next hopen =>
        have hopen := Bool.eq_false_iff.mpr hopen
        obtain ⟨_, b₁, hrun, h⟩ := Step.bind_eq_ok.mp h
        exact .cons hopen (lowers_of_lower item hopen hrun) (lowersItems_of_lower block rest h)

theorem lowers_of_lower {b b' : Build} : ∀ s : Stmt, b.draft.isClosed = false →
    s.lower width b = (.ok (), b') → Lowers width s b b'
  | .block body, _, h => .block (lowersBlock_of_lower body h)
  | .ifThen keyword condition yes, hopen, h => by
    obtain ⟨v, b₁, hrun, h⟩ := Step.bind_eq_ok.mp h
    obtain ⟨code, texts, hcode, rfl⟩ := Expr.compiles_of_lower hrun
    obtain ⟨c, b₂, hrun, h⟩ := Step.bind_eq_ok.mp h
    obtain ⟨test, htest, rfl⟩ := Lower.tests_of_truth hrun
    rw [Build.emit_emit, List.append_nil] at h
    rw [← Build.isClosed_emit b (code ++ test) texts] at hopen
    rw [Lower.forkThen_eq c _ hopen] at h
    obtain ⟨_, b₃, hyes, h⟩ := Step.bind_eq_ok.mp h
    cases h
    rw [Build.length_blocks_emit]
    exact .ifThen c code test hcode htest (lowersBlock_of_lower yes hyes)
  | .ifElse keyword condition yes no, hopen, h => by
    obtain ⟨v, b₁, hrun, h⟩ := Step.bind_eq_ok.mp h
    obtain ⟨code, texts, hcode, rfl⟩ := Expr.compiles_of_lower hrun
    obtain ⟨c, b₂, hrun, h⟩ := Step.bind_eq_ok.mp h
    obtain ⟨test, htest, rfl⟩ := Lower.tests_of_truth hrun
    rw [Build.emit_emit, List.append_nil] at h
    rw [← Build.isClosed_emit b (code ++ test) texts] at hopen
    rw [Lower.forkElse_eq c _ _ hopen, Build.length_blocks_emit] at h
    obtain ⟨_, b₃, hyes, h⟩ := Step.bind_eq_ok.mp h
    rw [Lower.update_bind] at h
    obtain ⟨_, b₄, hno, h⟩ := Step.bind_eq_ok.mp h
    cases h
    exact .ifElse c code test hcode htest (lowersBlock_of_lower yes hyes)
      (lowersBlock_of_lower no hno)
  | .ret marker value, _, h => lowers_of_lowerReturn h
  | .directive name bang args, _, h => lowers_of_lowerDirective h

end

end KestrelCompiler
