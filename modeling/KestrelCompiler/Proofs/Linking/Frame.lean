import KestrelCompiler.Lowering
import KestrelCompiler.Proofs.Linking.Renumbering

/-!
Lowering behind other string constants. A step of lowering looks at its function only and counts its
own string constants on from those that are there already. So it does the same with none in front of
them, up to the numbers of the string constants.
-/

namespace KestrelCompiler

open Ir (Ty Value StringConstant)

/-- An edit of one entry, seen through a map. -/
theorem map_modify_comm {α β : Type} (g : α → β) (f : α → α) (f' : β → β)
    (h : ∀ a, g (f a) = f' (g a)) (l : List α) (i : Nat) :
    (l.modify i f).map g = (l.map g).modify i f' := by
  induction l generalizing i with
  | nil => rw [List.modify_nil, List.map_nil, List.modify_nil]
  | cons a rest ih =>
      cases i with
      | zero => simp only [List.modify_zero_cons, List.map_cons, h]
      | succ i => simp only [List.modify_succ_cons, List.map_cons, ih]

/-- The draft where `k` string constants come before its own. -/
def Draft.renumber (k : Nat) (d : Draft) : Draft :=
  { d with blocks := d.blocks.map (Ir.Block.renumber k) }

/-- The state of lowering where other string constants and events came before. -/
def Build.behind (strings : List StringConstant) (events : List Event) (b : Build) : Build where
  draft := b.draft.renumber strings.length
  strings := strings ++ b.strings
  events := events ++ b.events

namespace Draft

variable (k : Nat) (d : Draft)

theorem renumber_start (ret : Ty) (parameters : List Ir.Parameter) :
    (start ret parameters).renumber k = start ret parameters := rfl

@[simp] theorem currentBlock?_renumber :
    (d.renumber k).currentBlock? = d.currentBlock?.map (Ir.Block.renumber k) :=
  List.getElem?_map

@[simp] theorem isClosed_renumber : (d.renumber k).isClosed = d.isClosed := by
  rw [isClosed, isClosed, currentBlock?_renumber]
  cases d.currentBlock? <;> rfl

theorem renumber_push (operation : Ir.Operation) :
    (d.renumber k).push (operation.renumber k) =
      ((d.push operation).1, (d.push operation).2.renumber k) := by
  have hblocks := map_modify_comm (Ir.Block.renumber k)
    (fun b => { b with instructions := b.instructions ++ [⟨d.count + 1, operation⟩] })
    (fun b => { b with instructions := b.instructions ++ [⟨d.count + 1, operation.renumber k⟩] })
    (fun b => by simp [Ir.Block.renumber, Ir.Instruction.renumber]) d.blocks d.current
  simp only [push, renumber, hblocks, Ir.Operation.type_renumber]

theorem renumber_close (exit : Ir.Exit) :
    (d.renumber k).close exit = (d.close exit).renumber k := by
  have hblocks := map_modify_comm (Ir.Block.renumber k) (fun b => { b with exit := some exit })
    (fun b => { b with exit := some exit }) (fun _ => rfl) d.blocks d.current
  simp only [close, renumber, hblocks]

theorem renumber_addBlock (label : String) :
    (d.renumber k).addBlock label =
      ((d.addBlock label).1, (d.addBlock label).2.renumber k) := by
  simp [addBlock, renumber, Ir.Block.renumber]

theorem renumber_bind (name : String) (position : Nat) (type : Ty) :
    (d.renumber k).bind name position type = (d.bind name position type).renumber k := rfl

end Draft

namespace Lower

variable {α α' β β' : Type}

/-- Behind other string constants and events `y` does what `x` does without them. -/
def Frames (strings : List StringConstant) (events : List Event) (g : α → α') (x : Lower α)
    (y : Lower α') : Prop :=
  ∀ b, y (b.behind strings events) = ((x b).1.map g, (x b).2.behind strings events)

variable {strings : List StringConstant} {events : List Event} {g : α → α'} {h : β → β'}
  {x : Lower α} {y : Lower α'}

theorem frames_pure (a : α) : Frames strings events g (pure a) (pure (g a)) :=
  fun _ => rfl

theorem frames_bind {f : α → Lower β} {f' : α' → Lower β'} (hx : Frames strings events g x y)
    (hf : ∀ a, Frames strings events h (f a) (f' (g a))) :
    Frames strings events h (x >>= f) (y >>= f') := by
  intro b
  change Step.bind y f' _ = ((Step.bind x f b).1.map h, (Step.bind x f b).2.behind strings events)
  rw [Step.bind, Step.bind, hx b]
  rcases x b with ⟨e | a, b₁⟩
  · rfl
  · exact hf a b₁

/-- The result is used as it is. -/
theorem Frames.bind_same {f : α → Lower β} {f' : α → Lower β'} {y : Lower α}
    (hx : Frames strings events id x y) (hf : ∀ a, Frames strings events h (f a) (f' a)) :
    Frames strings events h (x >>= f) (y >>= f') :=
  frames_bind hx hf

theorem frames_fail (e : LoweringError) (l : Location) :
    Frames strings events g (fail e l) (fail e l) :=
  fun _ => rfl

theorem frames_refuse (r : Refusal) : Frames strings events g (refuse r) (refuse r) :=
  fun _ => rfl

theorem frames_draft : Frames strings events (Draft.renumber strings.length) draft draft :=
  fun _ => rfl

theorem frames_update {f : Draft → Draft}
    (hf : ∀ d : Draft, f (d.renumber strings.length) = (f d).renumber strings.length) :
    Frames strings events id (update f) (update f) := by
  intro b
  simp [update, Step.update, Build.behind, hf, Except.map]

theorem frames_note (e : Event) : Frames strings events id (note e) (note e) := by
  intro b
  simp [note, Step.update, Build.behind, Except.map]

theorem frames_addBlock (label : String) :
    Frames strings events id (addBlock label) (addBlock label) := by
  intro b
  simp [addBlock, Build.behind, Draft.renumber_addBlock, Except.map]

theorem frames_enter (position : Nat) :
    Frames strings events id (enter position) (enter position) :=
  frames_update fun _ => rfl

theorem frames_addString (text : String) :
    Frames strings events (strings.length + ·) (addString text) (addString text) := by
  intro b
  simp [addString, Build.behind, Except.map]

theorem frames_ite {x' : Lower α} {y' : Lower α'} {p : Prop} [Decidable p]
    (hx : Frames strings events g x y) (hx' : Frames strings events g x' y') :
    Frames strings events g (if p then x else x') (if p then y else y') := by
  split
  · exact hx
  · exact hx'

/-- What is done depends on whether the current block is closed. -/
theorem frames_isClosed {x' : Lower α} {y' : Lower α'} (hx : Frames strings events g x y)
    (hx' : Frames strings events g x' y') :
    Frames strings events g (do if (← draft).isClosed then x else x')
      (do if (← draft).isClosed then y else y') := by
  refine frames_bind frames_draft fun d => ?_
  rw [Draft.isClosed_renumber]
  exact frames_ite hx hx'

theorem frames_onOpenBlock (hx : Frames strings events g x y) :
    Frames strings events g (onOpenBlock x) (onOpenBlock y) :=
  frames_isClosed (frames_refuse _) hx

theorem frames_append (operation : Ir.Operation) :
    Frames strings events id (append operation)
      (append (operation.renumber strings.length)) := by
  intro b
  simp [append, Build.behind, Draft.renumber_push, Except.map]

theorem frames_push (operation : Ir.Operation) :
    Frames strings events id (push operation) (push (operation.renumber strings.length)) := by
  rw [push, push, Ir.Operation.isBalanced_renumber]
  exact frames_ite (frames_onOpenBlock (frames_append operation)) (frames_refuse _)

theorem frames_close (exit : Ir.Exit) : Frames strings events id (close exit) (close exit) :=
  frames_onOpenBlock (frames_update fun d => d.renumber_close _ exit)

theorem frames_coerce (v : Value) (target : Ty) (l : Location) :
    Frames strings events id (coerce v target l) (coerce v target l) := by
  unfold coerce
  refine frames_ite (frames_pure v) ?_
  split
  · exact frames_ite (frames_push _) (frames_ite (frames_push _) (frames_push _))
  · exact frames_push _
  · exact frames_fail _ l

theorem frames_truth (v : Value) (l : Location) :
    Frames strings events id (truth v l) (truth v l) := by
  unfold truth
  split
  · exact frames_ite (frames_pure v) (frames_push _)
  · exact frames_push _
  · exact frames_fail _ l

theorem frames_addBlockAfter (suffix : String) :
    Frames strings events id (addBlockAfter suffix) (addBlockAfter suffix) := by
  refine frames_bind frames_draft fun d => ?_
  have hlabel : ((d.renumber strings.length).currentBlock?.map (·.label)).getD "" =
      (d.currentBlock?.map (·.label)).getD "" := by
    rw [Draft.currentBlock?_renumber]
    cases d.currentBlock? <;> rfl
  rw [hlabel]
  exact frames_addBlock _

theorem frames_branch {fill : Lower Unit} (position next : Nat)
    (hfill : Frames strings events id fill fill) :
    Frames strings events id (branch position next fill) (branch position next fill) := by
  refine (frames_enter position).bind_same fun _ => hfill.bind_same fun _ => ?_
  exact frames_isClosed (frames_pure ()) (frames_close _)

theorem frames_bindNames (names : List (Token × Ir.Parameter × Nat)) :
    Frames strings events id (bindNames names) (bindNames names) := by
  induction names with
  | nil => exact frames_pure ()
  | cons entry rest ih =>
      obtain ⟨name, parameter, position⟩ := entry
      refine frames_bind frames_draft fun d => ?_
      have hbind : Frames strings events id (update (·.bind name.text position parameter.type))
          (update (·.bind name.text position parameter.type)) :=
        frames_update fun d => d.renumber_bind _ name.text position parameter.type
      exact frames_ite (frames_fail _ _) (hbind.bind_same fun _ => ih)

end Lower

open Lower

variable {strings : List StringConstant} {events : List Event} {width : Nat}

theorem Expr.frames_integerWidth (v : Value) (op : Token) (l : Location) :
    Frames strings events id (integerWidth v op l) (integerWidth v op l) := by
  unfold integerWidth
  split
  · exact frames_pure _
  · exact frames_fail _ l

theorem Expr.frames_lower (e : Expr) :
    Frames strings events id (e.lower width) (e.lower width) := by
  induction e with
  | number token =>
      unfold lower
      split
      · exact frames_pure _
      · exact frames_fail _ _
  | string token =>
      exact frames_bind (frames_addString token.text) fun index =>
        frames_push (.stringAddress index _)
  | name token =>
      unfold lower
      refine frames_bind frames_draft fun d => ?_
      simp only [Draft.renumber]
      split
      · exact frames_pure _
      · exact frames_fail _ _
  | binary operation left op right ihl ihr =>
      refine ihl.bind_same fun l => ihr.bind_same fun r => ?_
      refine (frames_integerWidth l op _).bind_same fun m => ?_
      refine (frames_integerWidth r op _).bind_same fun n => ?_
      refine (frames_coerce l _ _).bind_same fun l' => (frames_coerce r _ _).bind_same fun r' => ?_
      cases operation <;> exact frames_push _

theorem frames_lowerDirective (name : Token) (args : List Token) :
    Frames strings events id (lowerDirective name args) (lowerDirective name args) := by
  unfold lowerDirective
  refine frames_ite (frames_fail _ _) ?_
  refine frames_bind frames_draft fun d => ?_
  simp only [Draft.renumber]
  split
  · exact frames_fail _ _
  · exact frames_bindNames _

theorem frames_lowerReturn (marker : Token) (value : Expr) :
    Frames strings events id (lowerReturn width marker value) (lowerReturn width marker value) := by
  refine frames_bind frames_draft fun d => frames_ite (frames_fail _ _) ?_
  refine value.frames_lower.bind_same fun v => ?_
  exact (frames_coerce v _ _).bind_same fun v' => frames_close _

mutual

theorem Block.frames_lower : ∀ b : Block,
    Frames strings events id (b.lower width) (b.lower width)
  | .mk left items _ => frames_lowerItems left.span.start items

theorem frames_lowerItems (block : Location) : ∀ items : List Stmt,
    Frames strings events id (lowerItems width block items) (lowerItems width block items)
  | [] => frames_pure ()
  | item :: rest =>
    frames_isClosed (frames_note _) ((Stmt.frames_lower item).bind_same fun _ =>
      frames_lowerItems block rest)

theorem Stmt.frames_lower : ∀ s : Stmt,
    Frames strings events id (s.lower width) (s.lower width)
  | .block body => Block.frames_lower body
  | .ifThen _ condition yes => by
    refine condition.frames_lower.bind_same fun v => (frames_truth v _).bind_same fun c => ?_
    refine (frames_addBlockAfter _).bind_same fun inside => ?_
    refine (frames_addBlockAfter _).bind_same fun next => (frames_close _).bind_same fun _ => ?_
    exact (frames_branch inside next (Block.frames_lower yes)).bind_same fun _ => frames_enter next
  | .ifElse _ condition yes no => by
    refine condition.frames_lower.bind_same fun v => (frames_truth v _).bind_same fun c => ?_
    refine (frames_addBlockAfter _).bind_same fun inside => ?_
    refine (frames_addBlockAfter _).bind_same fun otherwise => ?_
    refine (frames_addBlockAfter _).bind_same fun next => (frames_close _).bind_same fun _ => ?_
    refine (frames_branch inside next (Block.frames_lower yes)).bind_same fun _ => ?_
    exact (frames_branch otherwise next (Block.frames_lower no)).bind_same fun _ =>
      frames_enter next
  | .ret marker value => frames_lowerReturn marker value
  | .directive name _ args => frames_lowerDirective name args

end

theorem frames_lowerDefault (ret : Ty) :
    Frames strings events id (lowerDefault ret) (lowerDefault ret) := by
  unfold lowerDefault
  split <;> exact frames_close _

theorem FunctionDecl.frames_lower (d : FunctionDecl) :
    Frames strings events id (d.lower width) (d.lower width) := by
  refine (frames_note _).bind_same fun _ => d.body.frames_lower.bind_same fun _ => ?_
  refine frames_isClosed (frames_pure ()) ?_
  exact frames_bind frames_draft fun draft => frames_lowerDefault draft.ret

/-- A function is lowered the same, whatever string constants there are already. -/
theorem FunctionDecl.lower_behind (d : FunctionDecl) (ret : Ty) (parameters : List Ir.Parameter)
    (strings : List StringConstant) (events : List Event) :
    d.lower width ⟨Draft.start ret parameters, strings, events⟩ =
      ((d.lower width ⟨Draft.start ret parameters, [], []⟩).1,
        (d.lower width ⟨Draft.start ret parameters, [], []⟩).2.behind strings events) := by
  have hframe : Lower.Frames strings events id (d.lower width) (d.lower width) := d.frames_lower
  have hframe := hframe ⟨Draft.start ret parameters, [], []⟩
  rw [Build.behind, Draft.renumber_start, List.append_nil, List.append_nil] at hframe
  rw [hframe]
  cases (d.lower width ⟨Draft.start ret parameters, [], []⟩).1 <;> rfl

end KestrelCompiler
