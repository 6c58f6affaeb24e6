import KestrelCompiler.Proofs.Lowering.Growth

/-!
Types of the code. Every operand that lowering writes is a constant, a parameter or an earlier result
of the same block, and has the type that its place asks for.
-/

namespace KestrelCompiler

open Ir (Ty Value Instruction StringConstant)

/-- The types that are written in a piece of code. -/
def CodeProper (code : List Instruction) : Prop :=
  ∀ i ∈ code, ∀ type ∈ i.operation.types, type.Proper

theorem CodeProper.append {code more : List Instruction} (h : CodeProper code)
    (h' : CodeProper more) : CodeProper (code ++ more) := by
  intro i hi
  rcases List.mem_append.mp hi with hi | hi
  · exact h i hi
  · exact h' i hi

theorem codeProper_singleton {number : Nat} {operation : Ir.Operation}
    (h : ∀ type ∈ operation.types, type.Proper) : CodeProper [⟨number, operation⟩] := by
  intro i hi
  rw [List.mem_singleton.mp hi]
  exact h

/-- Names are bound to parameters, at their types. -/
def BindingsFit (types : List Ty) (bindings : List (String × Value)) : Prop :=
  ∀ entry ∈ bindings, ∃ position type, entry.2 = ⟨type, .parameter position⟩ ∧
    types[position]? = some type

theorem mem_of_lookup {κ α : Type} [BEq κ] [LawfulBEq κ] {bindings : List (κ × α)} {name : κ}
    {v : α} (h : bindings.lookup name = some v) : (name, v) ∈ bindings := by
  induction bindings with
  | nil => cases h
  | cons entry rest ih =>
      obtain ⟨other, value⟩ := entry
      rw [List.lookup_cons] at h
      split at h
      · next heq =>
          cases h
          rw [eq_of_beq heq]
          exact List.mem_cons_self
      · exact List.mem_cons_of_mem _ (ih h)

theorem lookup_iff_mem {κ α : Type} [BEq κ] [LawfulBEq κ] {bindings : List (κ × α)} {name : κ}
    {v : α} (h : (bindings.map Prod.fst).Nodup) :
    bindings.lookup name = some v ↔ (name, v) ∈ bindings := by
  refine ⟨mem_of_lookup, fun hmem => ?_⟩
  obtain ⟨before, after, rfl⟩ := List.append_of_mem hmem
  refine List.lookup_eq_some_iff.mpr ⟨before, after, rfl, fun entry hentry => ?_⟩
  rw [List.map_append, List.nodup_append] at h
  exact bne_iff_ne.mpr (h.2.2 _ (List.mem_map_of_mem hentry) _ List.mem_cons_self).symm

/-- Another name for a parameter. -/
theorem BindingsFit.bind {types : List Ty} {bindings : List (String × Value)}
    (h : BindingsFit types bindings) {position : Nat} {type : Ty}
    (htype : types[position]? = some type) (name : String) :
    BindingsFit types ((name, ⟨type, .parameter position⟩) :: bindings) := by
  intro entry hentry
  rcases List.mem_cons.mp hentry with rfl | hentry
  · exact ⟨position, type, rfl, htype⟩
  · exact h entry hentry

theorem map_type_bind (d : Draft) (name : String) (position : Nat) (type : Ty) :
    (d.bind name position type).parameters.map (·.type) = d.parameters.map (·.type) :=
  map_modify_eq fun _ => rfl

/-- The code and the value that it computes are well-typed behind any other code. -/
structure Typed (types : List Ty) (strings : List StringConstant) (code : List Instruction)
    (v : Value) : Prop where
  fits : ∀ earlier, Ir.CodeFits types strings earlier code
  value : ∀ earlier, v.Fits types (earlier ++ code)
  written : CodeProper code
  isValue : v.type.IsValue

section Code

variable {types : List Ty} {strings : List StringConstant} {code more : List Instruction}
  {count width : Nat} {v v' c l r : Value} {target : Ty}

namespace Typed

theorem nil (hvalue : ∀ earlier, v.Fits types earlier) (htype : v.type.IsValue) :
    Typed types strings [] v :=
  ⟨fun _ => trivial, fun _ => hvalue _, nofun, htype⟩

/-- One more instruction. -/
theorem snoc (h : Typed types strings code v) (number : Nat) (operation : Ir.Operation)
    (hfits : ∀ earlier, operation.Fits types strings (earlier ++ code))
    (hwritten : ∀ type ∈ operation.types, type.Proper) (htype : operation.type.IsValue) :
    Typed types strings (code ++ [⟨number, operation⟩]) ⟨operation.type, .result number⟩ where
  fits earlier := (h.fits earlier).append ⟨hfits earlier, trivial⟩
  value earlier := by
    rw [← List.append_assoc]
    exact Ir.Value.fits_result
  written := h.written.append (codeProper_singleton hwritten)
  isValue := htype

theorem strings_mono (h : Typed types strings code v) (texts : List StringConstant) :
    Typed types (strings ++ texts) code v :=
  ⟨fun earlier => (h.fits earlier).strings_mono texts, h.value, h.written, h.isValue⟩

theorem append (h : Typed types strings code v) (h' : Typed types strings more v') :
    Typed types strings (code ++ more) v' where
  fits earlier := (h.fits earlier).append (h'.fits _)
  value earlier := by
    rw [← List.append_assoc]
    exact h'.value _
  written := h.written.append h'.written
  isValue := h'.isValue

/-- A value may be used behind more code. -/
theorem frame (h : Typed types strings code v) (h' : Typed types strings (code ++ more) v') :
    Typed types strings (code ++ more) v where
  fits := h'.fits
  value earlier := by
    rw [← List.append_assoc]
    exact (h.value earlier).append more
  written := h'.written
  isValue := h.isValue

theorem coerce (h : Typed types strings code v) (hcoerce : Coerces count v target more v')
    (htarget : target.IsValue) : Typed types strings (code ++ more) v' := by
  have hwritten : ∀ type ∈ [v.type, target], type.Proper :=
    List.forall_mem_cons.mpr ⟨h.isValue.1, List.forall_mem_singleton.mpr htarget.1⟩
  cases hcoerce with
  | same _ =>
      rw [List.append_nil]
      exact h
  | truncate hv htype hlt =>
      exact h.snoc _ (.truncate v target) (fun earlier => ⟨h.value earlier, _, _, hv, htype, hlt⟩)
        hwritten htarget
  | extendZero hv htype hlt =>
      exact h.snoc _ (.extendZero v target) (fun earlier => ⟨h.value earlier, _, _, hv, htype, hlt⟩)
        hwritten htarget
  | extendSign hv htype hlt _ =>
      exact h.snoc _ (.extendSign v target) (fun earlier => ⟨h.value earlier, _, _, hv, htype, hlt⟩)
        hwritten htarget
  | cast hv htype =>
      exact h.snoc _ (.cast v target) (fun earlier => ⟨h.value earlier, _, _, hv, htype⟩)
        hwritten htarget

theorem test (h : Typed types strings code v) (htest : Tests count v more c) :
    Typed types strings (code ++ more) c ∧ c.type = .bit := by
  cases htest with
  | bit hbit =>
      rw [List.append_nil]
      exact ⟨h, hbit⟩
  | nonzero hscalar =>
      have hwritten : ∀ type ∈ [v.type], type.Proper := List.forall_mem_singleton.mpr h.isValue.1
      exact ⟨h.snoc _ (.nonzero v) (fun earlier => ⟨h.value earlier, hscalar⟩) hwritten
        ⟨Ty.proper_bit, trivial⟩, rfl⟩

theorem combine (hl : Typed types strings code l) (hr : Typed types strings code r)
    (hltype : l.type = .int width) (hrtype : r.type = .int width) (operation : Operation)
    (number : Nat) :
    Typed types strings (code ++ [⟨number, operation.combine l r⟩])
      ⟨(operation.combine l r).type, .result number⟩ := by
  have hsame : l.type = r.type := hltype.trans hrtype.symm
  have hwritten : ∀ type ∈ [l.type], type.Proper := List.forall_mem_singleton.mpr hl.isValue.1
  have hoperands : ∀ earlier, l.Fits types (earlier ++ code) ∧ r.Fits types (earlier ++ code) ∧
      l.type = r.type ∧ ∃ width, l.type = .int width :=
    fun earlier => ⟨hl.value earlier, hr.value earlier, hsame, width, hltype⟩
  cases operation with
  | add => exact hl.snoc number (.add l r) hoperands hwritten hl.isValue
  | sub => exact hl.snoc number (.sub l r) hoperands hwritten hl.isValue
  | less => exact hl.snoc number (.less l r) hoperands hwritten ⟨Ty.proper_bit, trivial⟩

end Typed

theorem Coerces.type_eq (h : Coerces count v target code v') : v'.type = target := by
  cases h with
  | same hsame => exact hsame
  | truncate _ _ _ | extendZero _ _ _ | extendSign _ _ _ _ | cast _ _ => rfl

theorem Compiles.typed {k : Nat} {bindings : List (String × Value)} {e : Expr}
    {texts : List StringConstant} (h : Compiles width bindings count k e code texts v)
    (hwidth : 0 < width) (hbindings : BindingsFit types bindings)
    (htypes : ∀ type ∈ types, type.IsValue) (hk : k = strings.length) :
    Typed types (strings ++ texts) code v := by
  induction h generalizing strings with
  | number _ => exact .nil (fun _ => ⟨width, rfl⟩) ⟨hwidth, trivial⟩
  | @string _ _ token =>
      subst hk
      exact {
        fits := fun _ => ⟨⟨_, List.getElem?_concat_length, rfl⟩, trivial⟩
        value := fun _ => Ir.Value.fits_result
        written := codeProper_singleton nofun
        isValue := ⟨Ty.proper_byte, trivial⟩ }
  | name hlookup =>
      obtain ⟨position, type, rfl, htype⟩ := hbindings _ (mem_of_lookup hlookup)
      exact .nil (fun _ => htype) (htypes type (List.mem_of_getElem? htype))
  | @binary _ k m n operation _ _ _ _ _ _ _ textsL textsR l _ _ _ _ _ hm hn hl' hr' ihl ihr =>
      have hleft := (ihl hk).strings_mono textsR
      have hright := @ihr (strings ++ textsL) (by rw [List.length_append, hk])
      have hcommon : (Ty.int (max m n)).IsValue := by
        have hproper := hleft.isValue.1
        rw [hm] at hproper
        exact ⟨Nat.lt_of_lt_of_le hproper (Nat.le_max_left m n), trivial⟩
      rw [← List.append_assoc strings]
      have hr₂ := hleft.append hright
      have hl₃ := (hleft.frame hr₂).coerce hl' hcommon
      have hr₄ := (hr₂.frame hl₃).coerce hr' hcommon
      exact (hl₃.frame hr₄).combine hr₄ hl'.type_eq hr'.type_eq operation _

end Code

section Blocks

variable (types : List Ty) (strings : List StringConstant)

/-- A block of a function with this result and this many blocks, closed or not. -/
structure BlockTyped (result : Ty) (blocks : Nat) (b : Ir.Block) : Prop where
  code : Ir.CodeFits types strings [] b.instructions
  written : CodeProper b.instructions
  exit : ∀ exit ∈ b.exit, exit.Fits types result blocks b.instructions ∧
    ∀ type ∈ exit.types, type.Proper

/-- What is known of the types in a draft. -/
structure DraftTyped (d : Draft) : Prop where
  parameters : d.parameters.map (·.type) = types
  scalars : ∀ type ∈ types, type.IsValue
  result : d.ret.IsResult
  bindings : BindingsFit types d.bindings
  blocks : ∀ b ∈ d.blocks, BlockTyped types strings d.ret d.blocks.length b

end Blocks

variable {types : List Ty} {strings : List StringConstant}

theorem BlockTyped.mono {result : Ty} {blocks blocks' : Nat} {b : Ir.Block}
    (h : BlockTyped types strings result blocks b) (more : List StringConstant)
    (hle : blocks ≤ blocks') : BlockTyped types (strings ++ more) result blocks' b :=
  ⟨h.code.strings_mono more, h.written,
    fun exit hexit => ⟨(h.exit exit hexit).1.mono hle, (h.exit exit hexit).2⟩⟩

theorem BlockTyped.proper {result : Ty} {blocks : Nat} {b : Ir.Block}
    (h : BlockTyped types strings result blocks b) : ∀ type ∈ b.types, type.Proper := by
  intro type htype
  rcases List.mem_append.mp htype with hcode | hexit
  · obtain ⟨i, hi, htype⟩ := List.mem_flatMap.mp hcode
    exact h.written i hi type htype
  · cases hb : b.exit with
    | none =>
        rw [hb] at hexit
        cases hexit
    | some exit =>
        rw [hb] at hexit
        exact (h.exit exit hb).2 type hexit

namespace DraftTyped

variable {d : Draft} {code : List Instruction} {texts : List StringConstant} {v : Value}

theorem append (h : DraftTyped types strings d) (hopen : d.IsOpen)
    (hcode : Typed types (strings ++ texts) code v) :
    DraftTyped types (strings ++ texts) (d.append code) := by
  obtain ⟨b, hb, hexit⟩ := hopen.exists_block
  refine ⟨h.parameters, h.scalars, h.result, h.bindings, ?_⟩
  rw [Draft.length_blocks_append]
  have hblocks : ∀ b ∈ d.blocks, BlockTyped types (strings ++ texts) d.ret d.blocks.length b :=
    fun b hb => (h.blocks b hb).mono texts (Nat.le_refl _)
  refine forall_mem_modify hblocks fun b' hb' => ?_
  obtain rfl := Option.some.inj (hb.symm.trans hb')
  have hblock := hblocks b (List.mem_of_getElem? hb)
  refine ⟨hblock.code.append (hcode.fits _), hblock.written.append hcode.written, ?_⟩
  simp [hexit]

theorem close (h : DraftTyped types strings d) {exit : Ir.Exit}
    (hexit : ∀ b, d.blocks[d.current]? = some b →
      exit.Fits types d.ret d.blocks.length b.instructions)
    (hwritten : ∀ type ∈ exit.types, type.Proper) : DraftTyped types strings (d.close exit) := by
  have hlength : (d.close exit).blocks.length = d.blocks.length := List.length_modify ..
  refine ⟨h.parameters, h.scalars, h.result, h.bindings, ?_⟩
  rw [hlength]
  refine forall_mem_modify h.blocks fun b hb => ?_
  have hblock := h.blocks b (List.mem_of_getElem? hb)
  refine ⟨hblock.code, hblock.written, fun exit' hexit' => ?_⟩
  cases hexit'
  exact ⟨hexit b hb, hwritten⟩

theorem addBlockAfter (h : DraftTyped types strings d) (suffix : String) :
    DraftTyped types strings (d.addBlockAfter suffix) := by
  refine ⟨h.parameters, h.scalars, h.result, h.bindings, fun b hb => ?_⟩
  rw [Draft.length_blocks_addBlockAfter]
  rcases List.mem_append.mp hb with hb | hb
  · have hblock := (h.blocks b hb).mono [] (Nat.le_succ _)
    rwa [List.append_nil] at hblock
  · rw [List.mem_singleton.mp hb]
    exact ⟨trivial, nofun, nofun⟩

theorem enter (h : DraftTyped types strings d) (position : Nat) :
    DraftTyped types strings (d.enter position) :=
  ⟨h.parameters, h.scalars, h.result, h.bindings, h.blocks⟩

theorem proceed (h : DraftTyped types strings d) {next : Nat} (hpos : 0 < next)
    (hlt : next < d.blocks.length) : DraftTyped types strings (d.proceed next) := by
  rw [Draft.proceed]
  split
  · exact h
  · exact h.close (fun _ _ => ⟨hpos, hlt⟩) (List.forall_mem_nil _)

theorem bind (h : DraftTyped types strings d) {name : String} {position : Nat} {type : Ty}
    (htype : types[position]? = some type) :
    DraftTyped types strings (d.bind name position type) where
  parameters := (map_type_bind d name position type).trans h.parameters
  scalars := h.scalars
  result := h.result
  bindings := h.bindings.bind htype name
  blocks := h.blocks

theorem bindAll (h : DraftTyped types strings d) {names : List (Token × Ir.Parameter × Nat)}
    (hnames : ∀ entry ∈ names, types[entry.2.2]? = some entry.2.1.type) :
    DraftTyped types strings (d.bindAll names) := by
  induction names generalizing d with
  | nil => exact h
  | cons entry rest ih =>
      exact ih (h.bind (hnames entry List.mem_cons_self))
        fun e he => hnames e (List.mem_cons_of_mem entry he)

end DraftTyped

/-- A value that may be used at the end of the current block. -/
def CurrentFits (types : List Ty) (d : Draft) (v : Value) : Prop :=
  ∀ b, d.blocks[d.current]? = some b → v.Fits types b.instructions

theorem CurrentFits.addBlockAfter {d : Draft} {v : Value} (h : CurrentFits types d v)
    (hinside : d.current < d.blocks.length) (suffix : String) :
    CurrentFits types (d.addBlockAfter suffix) v :=
  fun b hb => h b ((Draft.getElem?_blocks_addBlockAfter hinside suffix).symm.trans hb)

/-- The value that was computed last. -/
theorem Typed.currentFits {d : Draft} {code : List Instruction} {v : Value}
    (h : Typed types strings code v) (hopen : d.IsOpen) : CurrentFits types (d.append code) v := by
  intro b hb
  obtain ⟨b', hb', -⟩ := hopen.exists_block
  simp only [Draft.append, List.getElem?_modify_eq, hb'] at hb
  cases hb
  exact h.value b'.instructions

/-- A condition that was tested, in front of a fork. -/
theorem Tests.typed {width : Nat} {d : Draft} {e : Expr} {code test : List Instruction}
    {texts : List StringConstant} {v c : Value} (h : DraftTyped types strings d)
    (hwidth : 0 < width) (hopen : d.IsOpen)
    (he : Compiles width d.bindings d.count strings.length e code texts v)
    (htest : Tests (d.count + code.length) v test c) :
    DraftTyped types (strings ++ texts) (d.append (code ++ test)) ∧ c.type = .bit ∧
      CurrentFits types (d.append (code ++ test)) c := by
  obtain ⟨htyped, hbit⟩ := (he.typed hwidth h.bindings h.scalars rfl).test htest
  exact ⟨h.append hopen htyped, hbit, htyped.currentFits hopen⟩

namespace DraftTyped

variable {d : Draft} {c : Value}

theorem branch (h : DraftTyped types strings d) {yes no : Nat} (hbit : c.type = .bit)
    (hc : CurrentFits types d c) (hyes : 0 < yes ∧ yes < d.blocks.length)
    (hno : 0 < no ∧ no < d.blocks.length) :
    DraftTyped types strings (d.close (.branch c yes no)) := by
  refine h.close (fun b hb => ⟨hc b hb, hbit, hyes, hno⟩) fun type htype => ?_
  rw [List.mem_singleton.mp htype, hbit]
  exact Ty.proper_bit

theorem forkThen (h : DraftTyped types strings d) (hopen : d.IsOpen) (hbit : c.type = .bit)
    (hc : CurrentFits types d c) : DraftTyped types strings (d.forkThen c) := by
  have hinside := hopen.inside
  have hfits := (hc.addBlockAfter hinside ".if").addBlockAfter
    (Draft.isOpen_addBlockAfter hopen ".if").inside ".endif"
  refine DraftTyped.enter (branch ((h.addBlockAfter ".if").addBlockAfter ".endif") hbit hfits
    ?_ ?_) _
  · simp only [Draft.length_blocks_addBlockAfter]
    omega
  · simp only [Draft.length_blocks_addBlockAfter]
    omega

theorem forkElse (h : DraftTyped types strings d) (hopen : d.IsOpen) (hbit : c.type = .bit)
    (hc : CurrentFits types d c) : DraftTyped types strings (d.forkElse c) := by
  have hinside := hopen.inside
  have hopen' := Draft.isOpen_addBlockAfter hopen ".if"
  have hfits := ((hc.addBlockAfter hinside ".if").addBlockAfter hopen'.inside
    ".else").addBlockAfter (Draft.isOpen_addBlockAfter hopen' ".else").inside ".endif"
  refine DraftTyped.enter (branch
    (((h.addBlockAfter ".if").addBlockAfter ".else").addBlockAfter ".endif") hbit hfits ?_ ?_) _
  · simp only [Draft.length_blocks_addBlockAfter]
    omega
  · simp only [Draft.length_blocks_addBlockAfter]
    omega

theorem leave (h : DraftTyped types strings d) (next position : Nat) (hpos : 0 < next)
    (hlt : next < d.blocks.length) :
    DraftTyped types strings (d.leave next position) :=
  (h.proceed hpos hlt).enter position

theorem directive (h : DraftTyped types strings d) (args : List Token) :
    DraftTyped types strings (d.bindAll (args.zip d.parameters.zipIdx)) := by
  refine h.bindAll fun entry hentry => ?_
  have hmem := (List.of_mem_zip hentry).2
  rw [← h.parameters, List.getElem?_map, List.mem_zipIdx_iff_getElem?.mp hmem]
  rfl

end DraftTyped

variable {width : Nat}

theorem typed_ret {b : Build} {value : Expr} {code coerce : List Instruction}
    {texts : List StringConstant} {v v' : Value} (hret : b.draft.ret ≠ .void)
    (hvalue : Compiles width b.draft.bindings b.draft.count b.strings.length value code texts v)
    (hcoerce : Coerces (b.draft.count + code.length) v b.draft.ret coerce v') (hwidth : 0 < width)
    (hopen : b.draft.IsOpen) (h : DraftTyped types b.strings b.draft) :
    DraftTyped types (b.strings ++ texts) ((b.draft.append (code ++ coerce)).close (.ret v')) := by
  have hvalue' := hvalue.typed hwidth h.bindings h.scalars rfl
  have htyped := hvalue'.coerce hcoerce (h.result.resolve_left hret)
  refine (h.append hopen htyped).close (fun block hblock => ⟨?_, hcoerce.type_eq⟩) ?_
  · exact htyped.currentFits hopen block hblock
  · exact List.forall_mem_singleton.mpr htyped.isValue.1

mutual

theorem LowersBlock.typed {block : Block} {b b' : Build} :
    LowersBlock width block b b' → 0 < width → b.draft.current < b.draft.blocks.length →
      DraftTyped types b.strings b.draft → DraftTyped types b'.strings b'.draft
  | .mk hitems, hwidth, hinside, h => hitems.typed hwidth hinside h

theorem LowersItems.typed {items : List Stmt} {b b' : Build} :
    LowersItems width items b b' → 0 < width → b.draft.current < b.draft.blocks.length →
      DraftTyped types b.strings b.draft → DraftTyped types b'.strings b'.draft
  | .nil, _, _, h => h
  | .unreachable _ _, _, _, h => h
  | .cons hopen hitem hrest, hwidth, hinside, h =>
    hrest.typed hwidth (hitem.extends ⟨hinside, hopen⟩).inside
      (hitem.typed hwidth ⟨hinside, hopen⟩ h)

theorem Lowers.typed {s : Stmt} {b b' : Build} :
    Lowers width s b b' → 0 < width → b.draft.IsOpen →
      DraftTyped types b.strings b.draft → DraftTyped types b'.strings b'.draft
  | .block hbody, hwidth, hopen, h => hbody.typed hwidth hopen.inside h
  | .ifThen c code test he htest hyes, hwidth, hopen, h => by
    obtain ⟨hcode, hbit, hc⟩ := htest.typed h hwidth hopen he
    have hcodeOpen := Draft.isOpen_append hopen (code ++ test)
    have hinside := (Draft.extends_forkThen hcodeOpen c).2.inside
    have hlength := (hyes.extends hinside).grow.length_le
    simp only [Build.withDraft, Build.emit, Draft.length_blocks_forkThen,
      Draft.length_blocks_append] at hlength
    exact (hyes.typed hwidth hinside (hcode.forkThen hcodeOpen hbit hc)).leave _ _ (by omega)
      (by omega)
  | .ifElse c code test he htest hyes hno, hwidth, hopen, h => by
    obtain ⟨hcode, hbit, hc⟩ := htest.typed h hwidth hopen he
    have hcodeOpen := Draft.isOpen_append hopen (code ++ test)
    have hinside := (Draft.extends_forkElse hcodeOpen c).2.inside
    have hextends := hyes.extends hinside
    have hlength := hextends.grow.length_le
    simp only [Build.withDraft, Build.emit, Draft.length_blocks_forkElse,
      Draft.length_blocks_append] at hlength
    have hyes := (hyes.typed hwidth hinside (hcode.forkElse hcodeOpen hbit hc)).leave
      (b.draft.blocks.length + 2) (b.draft.blocks.length + 1) (by omega) (by omega)
    have hinside := (Draft.extends_leave_yes hcodeOpen hextends).2.inside
    rw [Draft.length_blocks_append] at hinside
    have hlength' := (hno.extends hinside).grow.length_le
    simp only [Build.withDraft, Draft.length_blocks_leave] at hlength'
    exact (hno.typed hwidth hinside hyes).leave _ _ (by omega) (by omega)
  | .ret _ _ hret hvalue hcoerce, hwidth, hopen, h =>
    typed_ret hret hvalue hcoerce hwidth hopen h
  | .directive _, _, _, h => h.directive _

end

end KestrelCompiler
