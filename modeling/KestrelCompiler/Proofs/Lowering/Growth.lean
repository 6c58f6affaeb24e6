import KestrelCompiler.Proofs.Lowering.Run

/-!
How a draft grows. Code is only appended to the current block, a closed block stays as it is, and
each block that a statement leaves behind is closed, so that at the end all blocks are.
-/

namespace KestrelCompiler

open Ir (Value Instruction)

section Modify

variable {α β : Type} {l : List α} {i : Nat} {f : α → α} {g : α → β}

theorem forall_mem_modify {P : α → Prop} (h : ∀ a ∈ l, P a) (hf : ∀ a, l[i]? = some a → P (f a)) :
    ∀ a ∈ l.modify i f, P a := by
  intro a ha
  obtain ⟨j, hj⟩ := List.getElem?_of_mem ha
  rw [List.getElem?_modify] at hj
  by_cases hij : i = j
  · subst hij
    cases hl : l[i]? with
    | none => simp [hl] at hj
    | some b =>
        obtain rfl : f b = a := by simpa [hl] using hj
        exact hf b hl
  · have hl : l[j]? = some a := by simpa [hij] using hj
    exact h a (List.mem_of_getElem? hl)

/-- An edit of one entry that keeps what is listed of it. -/
theorem map_modify_eq (hf : ∀ a, g (f a) = g a) : (l.modify i f).map g = l.map g := by
  induction l generalizing i with
  | nil => rw [List.modify_nil]
  | cons a rest ih =>
      cases i with
      | zero => rw [List.modify_zero_cons, List.map_cons, List.map_cons, hf]
      | succ i => rw [List.modify_succ_cons, List.map_cons, List.map_cons, ih]

/-- An edit of one entry that sets what is listed of it. -/
theorem map_modify_eq_set {b : β} (hf : ∀ a, g (f a) = b) :
    (l.modify i f).map g = (l.map g).set i b := by
  induction l generalizing i with
  | nil => rw [List.modify_nil, List.map_nil, List.set_nil]
  | cons a rest ih =>
      cases i with
      | zero => rw [List.modify_zero_cons, List.map_cons, List.map_cons, List.set_cons_zero, hf]
      | succ i => rw [List.modify_succ_cons, List.map_cons, List.map_cons, List.set_cons_succ, ih]

end Modify

namespace Ir

/-- What may become of a block: it keeps what it has, and it changes no more once it is closed. -/
structure Block.Grows (b b' : Block) : Prop where
  label : b'.label = b.label
  code : b.instructions <+: b'.instructions
  closed : b.exit.isSome = true → b' = b

/-- Each block of the first list has grown to the one at the same position of the second. -/
def Grow (blocks blocks' : List Block) : Prop :=
  ∀ (i : Nat) (b : Block), blocks[i]? = some b → ∃ b' : Block, blocks'[i]? = some b' ∧ b.Grows b'

theorem Block.Grows.refl (b : Block) : b.Grows b :=
  ⟨rfl, List.prefix_rfl, fun _ => rfl⟩

theorem Block.Grows.trans {a b c : Block} (h : a.Grows b) (h' : b.Grows c) : a.Grows c := by
  refine ⟨h'.label.trans h.label, h.code.trans h'.code, fun hclosed => ?_⟩
  obtain rfl := h.closed hclosed
  exact h'.closed hclosed

theorem Grow.refl (blocks : List Block) : Grow blocks blocks :=
  fun _ b hb => ⟨b, hb, .refl b⟩

theorem Grow.trans {blocks blocks' blocks'' : List Block} (h : Grow blocks blocks')
    (h' : Grow blocks' blocks'') : Grow blocks blocks'' := by
  intro i b hb
  obtain ⟨b', hb', hgrows⟩ := h i b hb
  obtain ⟨b'', hb'', hgrows'⟩ := h' i b' hb'
  exact ⟨b'', hb'', hgrows.trans hgrows'⟩

theorem grow_append (blocks more : List Block) : Grow blocks (blocks ++ more) := by
  intro i b hb
  have hlt := (List.getElem?_eq_some_iff.mp hb).1
  exact ⟨b, by rw [List.getElem?_append_left hlt, hb], .refl b⟩

theorem Grow.length_le {blocks blocks' : List Block} (h : Grow blocks blocks') :
    blocks.length ≤ blocks'.length := by
  by_cases hempty : blocks.length = 0
  · omega
  · have hlt : blocks.length - 1 < blocks.length := by omega
    obtain ⟨b', hb', -⟩ := h (blocks.length - 1) _ (List.getElem?_eq_getElem hlt)
    have := (List.getElem?_eq_some_iff.mp hb').1
    omega

end Ir

namespace Draft

/-- The current block is one of the draft and not closed yet. -/
structure IsOpen (d : Draft) : Prop where
  inside : d.current < d.blocks.length
  not_closed : d.isClosed = false

theorem IsOpen.exists_block {d : Draft} (h : d.IsOpen) :
    ∃ b, d.blocks[d.current]? = some b ∧ b.exit = none := by
  refine ⟨_, List.getElem?_eq_getElem h.inside, ?_⟩
  have hnot := h.not_closed
  rw [isClosed, currentBlock?, List.getElem?_eq_getElem h.inside] at hnot
  simpa using hnot

/-- The current block is empty. -/
def IsFresh (d : Draft) : Prop :=
  ∃ label, d.currentBlock? = some { label }

theorem IsFresh.inside {d : Draft} (h : d.IsFresh) : d.current < d.blocks.length := by
  obtain ⟨label, hb⟩ := h
  exact (List.getElem?_eq_some_iff.mp hb).1

theorem IsFresh.isOpen {d : Draft} (h : d.IsFresh) : d.IsOpen := by
  refine ⟨h.inside, ?_⟩
  obtain ⟨label, hb⟩ := h
  rw [isClosed, hb]
  rfl

/-- An edit of the current block. -/
theorem grow_modify {d : Draft} (h : d.IsOpen) {f : Ir.Block → Ir.Block}
    (hlabel : ∀ b, (f b).label = b.label)
    (hcode : ∀ b, b.instructions <+: (f b).instructions) :
    Ir.Grow d.blocks (d.blocks.modify d.current f) := by
  intro i b hb
  rw [List.getElem?_modify, hb]
  by_cases hcurrent : d.current = i
  · subst hcurrent
    obtain ⟨b', hb', hexit⟩ := h.exists_block
    obtain rfl := Option.some.inj (hb.symm.trans hb')
    exact ⟨f b, by simp, hlabel b, hcode b, by simp [hexit]⟩
  · exact ⟨b, by simp [hcurrent], .refl b⟩

/-- What a run of statements makes of a draft. The blocks at the positions `pending` are empty and
wait to be filled; all other new blocks but the current one are closed. -/
structure Extends (pending : List Nat) (d d' : Draft) : Prop where
  grow : Ir.Grow d.blocks d'.blocks
  ret : d'.ret = d.ret
  others : ∀ i, i < d.blocks.length → i ≠ d.current → d'.blocks[i]? = d.blocks[i]?
  current : d'.current = d.current ∨ d.blocks.length ≤ d'.current
  inside : d'.current < d'.blocks.length
  closed : ∀ i b, i = d.current ∨ d.blocks.length ≤ i → i ≠ d'.current → i ∉ pending →
    d'.blocks[i]? = some b → b.exit.isSome = true
  waiting : ∀ i ∈ pending, d.blocks.length ≤ i ∧ i ≠ d'.current ∧
    ∃ label, d'.blocks[i]? = some { label }

theorem Extends.refl {d : Draft} (h : d.current < d.blocks.length) : Extends [] d d where
  grow := .refl _
  ret := rfl
  others _ _ _ := rfl
  current := .inl rfl
  inside := h
  closed i b hi hne _ hb := by
    have := (List.getElem?_eq_some_iff.mp hb).1
    omega
  waiting i hi := nomatch hi

theorem Extends.trans {pending : List Nat} {d d₁ d₂ : Draft} (h : Extends pending d d₁)
    (h' : Extends [] d₁ d₂) : Extends pending d d₂ where
  grow := h.grow.trans h'.grow
  ret := h'.ret.trans h.ret
  others i hi hne := by
    have hlength := h.grow.length_le
    have hcurrent := h.current
    rw [h'.others i (by omega) (by omega), h.others i hi hne]
  current := by
    have hlength := h.grow.length_le
    have hcurrent := h.current
    have hcurrent' := h'.current
    omega
  inside := h'.inside
  closed i b hi hne hpending hb := by
    by_cases hnew : i = d₁.current ∨ d₁.blocks.length ≤ i
    · exact h'.closed i b hnew hne nofun hb
    · rw [h'.others i (by omega) (by omega)] at hb
      exact h.closed i b hi (by omega) hpending hb
  waiting i hi := by
    obtain ⟨hle, hne, label, hb⟩ := h.waiting i hi
    have hlt := (List.getElem?_eq_some_iff.mp hb).1
    have hcurrent' := h'.current
    exact ⟨hle, by omega, label, by rw [h'.others i hlt hne, hb]⟩

theorem isOpen_append {d : Draft} (h : d.IsOpen) (code : List Instruction) :
    (d.append code).IsOpen := by
  obtain ⟨b, hb, hexit⟩ := h.exists_block
  refine ⟨by rw [length_blocks_append]; exact h.inside, ?_⟩
  simp [isClosed, currentBlock?, append, hb, hexit]

theorem extends_modify {d d' : Draft} (h : d.IsOpen) {f : Ir.Block → Ir.Block}
    (hblocks : d'.blocks = d.blocks.modify d.current f) (hcurrent : d'.current = d.current)
    (hret : d'.ret = d.ret) (hlabel : ∀ b, (f b).label = b.label)
    (hcode : ∀ b, b.instructions <+: (f b).instructions) : Extends [] d d' where
  grow := by
    rw [hblocks]
    exact grow_modify h hlabel hcode
  ret := hret
  others i _ hne := by
    rw [hblocks, List.getElem?_modify_ne _ _ (Ne.symm hne)]
  current := .inl hcurrent
  inside := by
    rw [hblocks, hcurrent, List.length_modify]
    exact h.inside
  closed i b hi hne _ hb := by
    have hlt := (List.getElem?_eq_some_iff.mp hb).1
    rw [hblocks, List.length_modify] at hlt
    omega
  waiting i hi := nomatch hi

theorem extends_append {d : Draft} (h : d.IsOpen) (code : List Instruction) :
    Extends [] d (d.append code) :=
  extends_modify h rfl rfl rfl (fun _ => rfl) fun _ => List.prefix_append ..

theorem extends_close {d : Draft} (h : d.IsOpen) (exit : Ir.Exit) :
    Extends [] d (d.close exit) :=
  extends_modify h rfl rfl rfl (fun _ => rfl) fun _ => List.prefix_rfl

theorem Extends.addBlockAfter {pending : List Nat} {d d' : Draft} (h : Extends pending d d')
    (suffix : String) :
    Extends (d'.blocks.length :: pending) d (d'.addBlockAfter suffix) where
  grow := h.grow.trans (Ir.grow_append _ _)
  ret := h.ret
  others i hi hne := by
    have hlength := h.grow.length_le
    rw [← h.others i hi hne, getElem?_blocks_addBlockAfter (by omega)]
  current := h.current
  inside := by
    rw [length_blocks_addBlockAfter]
    exact Nat.lt_succ_of_lt h.inside
  closed i b hi hne hpending hb := by
    obtain ⟨hnew, hpending⟩ := not_or.mp (mt List.mem_cons.mpr hpending)
    have hlt := (List.getElem?_eq_some_iff.mp hb).1
    rw [length_blocks_addBlockAfter] at hlt
    rw [getElem?_blocks_addBlockAfter (by omega)] at hb
    exact h.closed i b hi hne hpending hb
  waiting i hi := by
    rcases List.mem_cons.mp hi with rfl | hi
    · exact ⟨h.grow.length_le, Nat.ne_of_gt h.inside, _, List.getElem?_concat_length⟩
    · obtain ⟨hle, hne, label, hb⟩ := h.waiting i hi
      have hlt := (List.getElem?_eq_some_iff.mp hb).1
      exact ⟨hle, hne, label, (getElem?_blocks_addBlockAfter hlt suffix).trans hb⟩

theorem isOpen_addBlockAfter {d : Draft} (h : d.IsOpen) (suffix : String) :
    (d.addBlockAfter suffix).IsOpen := by
  obtain ⟨b, hb, hexit⟩ := h.exists_block
  have hsame : (d.addBlockAfter suffix).blocks[d.current]? = some b :=
    (getElem?_blocks_addBlockAfter h.inside suffix).trans hb
  refine ⟨by rw [length_blocks_addBlockAfter]; exact Nat.lt_succ_of_lt h.inside, ?_⟩
  rw [isClosed, currentBlock?]
  change ((d.addBlockAfter suffix).blocks[d.current]?).any _ = false
  rw [hsame]
  simp [hexit]

/-- A block that waited is entered once the current one is closed. -/
theorem Extends.enter {pending pending' : List Nat} {d d' : Draft} {position : Nat}
    (h : Extends pending d d') (hclosed : d'.isClosed = true) (hmem : position ∈ pending)
    (hpending : ∀ i, i ∈ pending' ↔ i ∈ pending ∧ i ≠ position) :
    Extends pending' d (d'.enter position) ∧ (d'.enter position).IsFresh := by
  obtain ⟨hle, -, label, hb⟩ := h.waiting position hmem
  refine ⟨?_, label, hb⟩
  exact {
    grow := h.grow
    ret := h.ret
    others := h.others
    current := .inr hle
    inside := (List.getElem?_eq_some_iff.mp hb).1
    closed := fun i b hi hne hnot hb => by
      by_cases hcurrent : i = d'.current
      · have hb : d'.blocks[d'.current]? = some b := hcurrent ▸ hb
        rw [isClosed, currentBlock?, hb] at hclosed
        exact hclosed
      · exact h.closed i b hi hcurrent (fun hi' => hnot ((hpending i).mpr ⟨hi', hne⟩)) hb
    waiting := fun i hi => by
      obtain ⟨hi, hne⟩ := (hpending i).mp hi
      obtain ⟨hle, -, hwaits⟩ := h.waiting i hi
      exact ⟨hle, hne, hwaits⟩ }

theorem isClosed_close {d : Draft} (h : d.current < d.blocks.length) (exit : Ir.Exit) :
    (d.close exit).isClosed = true := by
  simp [isClosed, currentBlock?, close, h]

theorem isClosed_proceed {d : Draft} (h : d.current < d.blocks.length) (next : Nat) :
    (d.proceed next).isClosed = true := by
  rw [proceed]
  split
  · assumption
  · exact isClosed_close h _

theorem extends_proceed {d : Draft} (h : d.current < d.blocks.length) (next : Nat) :
    Extends [] d (d.proceed next) := by
  rw [proceed]
  split
  · exact .refl h
  · next hopen => exact extends_close ⟨h, Bool.eq_false_iff.mpr hopen⟩ _

theorem Extends.leave {pending pending' : List Nat} {d d' : Draft} {position : Nat}
    (h : Extends pending d d') (hmem : position ∈ pending)
    (hpending : ∀ i, i ∈ pending' ↔ i ∈ pending ∧ i ≠ position) (next : Nat) :
    Extends pending' d (d'.leave next position) ∧ (d'.leave next position).IsFresh :=
  (h.trans (extends_proceed h.inside next)).enter (isClosed_proceed h.inside next) hmem hpending

theorem extends_forkThen {d : Draft} (h : d.IsOpen) (c : Value) :
    Extends [d.blocks.length + 1] d (d.forkThen c) ∧ (d.forkThen c).IsFresh := by
  have hblocks := ((Extends.refl h.inside).addBlockAfter ".if").addBlockAfter ".endif"
  have hopen := isOpen_addBlockAfter (isOpen_addBlockAfter h ".if") ".endif"
  rw [length_blocks_addBlockAfter] at hblocks
  refine (hblocks.trans (extends_close hopen _)).enter (isClosed_close hopen.inside _)
    (List.mem_cons_of_mem _ List.mem_cons_self) fun i => ?_
  simp only [List.mem_cons, List.not_mem_nil, or_false]
  omega

theorem extends_forkElse {d : Draft} (h : d.IsOpen) (c : Value) :
    Extends [d.blocks.length + 2, d.blocks.length + 1] d (d.forkElse c) ∧
      (d.forkElse c).IsFresh := by
  have hblocks := (((Extends.refl h.inside).addBlockAfter ".if").addBlockAfter
    ".else").addBlockAfter ".endif"
  have hopen := isOpen_addBlockAfter (isOpen_addBlockAfter (isOpen_addBlockAfter h ".if")
    ".else") ".endif"
  simp only [length_blocks_addBlockAfter] at hblocks
  refine (hblocks.trans (extends_close hopen _)).enter (isClosed_close hopen.inside _)
    (List.mem_cons_of_mem _ (List.mem_cons_of_mem _ List.mem_cons_self)) fun i => ?_
  simp only [List.mem_cons, List.not_mem_nil, or_false]
  omega

/-- Both ways through a conditional without an alternative lead to its last block. -/
theorem extends_leave_forkThen {d d' : Draft} {c : Value} (h : d.IsOpen)
    (hyes : Extends [] (d.forkThen c) d') :
    Extends [] d (d'.leave (d.blocks.length + 1) (d.blocks.length + 1)) ∧
      (d'.leave (d.blocks.length + 1) (d.blocks.length + 1)).IsFresh :=
  ((extends_forkThen h c).1.trans hyes).leave List.mem_cons_self (fun i => by simp) _

theorem extends_leave_yes {d d' : Draft} {c : Value} (h : d.IsOpen)
    (hyes : Extends [] (d.forkElse c) d') :
    Extends [d.blocks.length + 2] d
      (d'.leave (d.blocks.length + 2) (d.blocks.length + 1)) ∧
      (d'.leave (d.blocks.length + 2) (d.blocks.length + 1)).IsFresh := by
  refine ((extends_forkElse h c).1.trans hyes).leave
    (List.mem_cons_of_mem _ List.mem_cons_self) (fun i => ?_) _
  simp only [List.mem_cons, List.not_mem_nil, or_false]
  omega

theorem extends_leave_no {d d' d'' : Draft} {c : Value} (h : d.IsOpen)
    (hyes : Extends [] (d.forkElse c) d')
    (hno : Extends [] (d'.leave (d.blocks.length + 2) (d.blocks.length + 1)) d'') :
    Extends [] d (d''.leave (d.blocks.length + 2) (d.blocks.length + 2)) ∧
      (d''.leave (d.blocks.length + 2) (d.blocks.length + 2)).IsFresh :=
  ((extends_leave_yes h hyes).1.trans hno).leave List.mem_cons_self (fun i => by simp) _

theorem blocks_bindAll (d : Draft) (names : List (Token × Ir.Parameter × Nat)) :
    (d.bindAll names).blocks = d.blocks ∧ (d.bindAll names).current = d.current ∧
      (d.bindAll names).ret = d.ret := by
  induction names generalizing d with
  | nil => exact ⟨rfl, rfl, rfl⟩
  | cons entry rest ih => exact ih _

theorem extends_bindAll {d : Draft} (h : d.current < d.blocks.length)
    (names : List (Token × Ir.Parameter × Nat)) : Extends [] d (d.bindAll names) := by
  obtain ⟨hblocks, hcurrent, hret⟩ := blocks_bindAll d names
  have hsame := Extends.refl h
  exact {
    grow := hblocks ▸ hsame.grow
    ret := hret
    others := fun _ _ _ => by rw [hblocks]
    current := .inl hcurrent
    inside := by rw [hblocks, hcurrent]; exact h
    closed := by rw [hblocks, hcurrent]; exact hsame.closed
    waiting := fun _ hi => nomatch hi }

end Draft

open Draft

variable {width : Nat}

mutual

theorem LowersBlock.extends {block : Block} {b b' : Build} :
    LowersBlock width block b b' → b.draft.current < b.draft.blocks.length →
      Extends [] b.draft b'.draft
  | .mk hitems, hinside => hitems.extends hinside

theorem LowersItems.extends {items : List Stmt} {b b' : Build} :
    LowersItems width items b b' → b.draft.current < b.draft.blocks.length →
      Extends [] b.draft b'.draft
  | .nil, hinside => .refl hinside
  | .unreachable _ _, hinside => .refl hinside
  | .cons hopen hitem hrest, hinside => by
    have hextends := hitem.extends ⟨hinside, hopen⟩
    exact hextends.trans (hrest.extends hextends.inside)

theorem Lowers.extends {s : Stmt} {b b' : Build} :
    Lowers width s b b' → b.draft.IsOpen → Extends [] b.draft b'.draft
  | .block hbody, hopen => hbody.extends hopen.inside
  | .ifThen c code test _ _ hyes, hopen => by
    have hcode := isOpen_append hopen (code ++ test)
    have hleave := (extends_leave_forkThen hcode
      (hyes.extends (extends_forkThen hcode _).2.inside)).1
    rw [length_blocks_append] at hleave
    exact (extends_append hopen (code ++ test)).trans hleave
  | .ifElse c code test _ _ hyes hno, hopen => by
    have hcode := isOpen_append hopen (code ++ test)
    have hyes := hyes.extends (extends_forkElse hcode _).2.inside
    have hinside := (extends_leave_yes hcode hyes).2.inside
    rw [length_blocks_append] at hinside
    have hleave := (extends_leave_no hcode hyes (by
      rw [length_blocks_append]
      exact hno.extends hinside)).1
    rw [length_blocks_append] at hleave
    exact (extends_append hopen (code ++ test)).trans hleave
  | .ret _ _ _ _ _, hopen =>
    (extends_append hopen _).trans (extends_close (isOpen_append hopen _) _)
  | .directive _, hopen => extends_bindAll hopen.inside _

end

mutual

theorem LowersBlock.strings {block : Block} {b b' : Build} :
    LowersBlock width block b b' → b.strings <+: b'.strings
  | .mk hitems => hitems.strings

theorem LowersItems.strings {items : List Stmt} {b b' : Build} :
    LowersItems width items b b' → b.strings <+: b'.strings
  | .nil => List.prefix_rfl
  | .unreachable _ _ => List.prefix_rfl
  | .cons _ hitem hrest => hitem.strings.trans hrest.strings

theorem Lowers.strings {s : Stmt} {b b' : Build} :
    Lowers width s b b' → b.strings <+: b'.strings
  | .block hbody => hbody.strings
  | .ifThen _ _ _ _ _ hyes => (List.prefix_append ..).trans hyes.strings
  | .ifElse _ _ _ _ _ hyes hno => ((List.prefix_append ..).trans hyes.strings).trans hno.strings
  | .ret _ _ _ _ _ => List.prefix_append ..
  | .directive _ => List.prefix_rfl

end

end KestrelCompiler
