import KestrelCompiler.Proofs.Faults.Types
import KestrelCompiler.Proofs.Lowering.Declaration

/-!
Widths in the code. All types that are written in a function come from its signature and from `int`,
`bool` and `char`, so that they can be written where the width of `int` can.
-/

namespace KestrelCompiler

open Ir (Ty Value Instruction StringConstant)

def CodeWritable (code : List Instruction) : Prop :=
  ∀ i ∈ code, ∀ type ∈ i.operation.types, type.isWritable = true

theorem CodeWritable.append {code more : List Instruction} (h : CodeWritable code)
    (h' : CodeWritable more) : CodeWritable (code ++ more) := by
  intro i hi
  rcases List.mem_append.mp hi with hi | hi
  · exact h i hi
  · exact h' i hi

theorem codeWritable_singleton {number : Nat} {operation : Ir.Operation}
    (h : ∀ type ∈ operation.types, type.isWritable = true) :
    CodeWritable [⟨number, operation⟩] := by
  intro i hi
  rw [List.mem_singleton.mp hi]
  exact h

section Code

variable {count width : Nat} {v v' c : Value} {target : Ty} {code : List Instruction}

theorem Coerces.writable (h : Coerces count v target code v') (hv : v.type.isWritable = true)
    (htarget : target.isWritable = true) : CodeWritable code := by
  have hboth : ∀ type ∈ [v.type, target], type.isWritable = true :=
    List.forall_mem_cons.mpr ⟨hv, List.forall_mem_singleton.mpr htarget⟩
  cases h with
  | same _ => exact List.forall_mem_nil _
  | truncate _ _ _ | extendZero _ _ _ | extendSign _ _ _ _ | cast _ _ =>
      exact codeWritable_singleton hboth

theorem Tests.writable (h : Tests count v code c) (hv : v.type.isWritable = true) :
    CodeWritable code ∧ c.type.isWritable = true := by
  cases h with
  | bit _ => exact ⟨List.forall_mem_nil _, hv⟩
  | nonzero _ =>
      exact ⟨codeWritable_singleton (List.forall_mem_singleton.mpr hv), Ty.isWritable_bit⟩

theorem isWritable_max {m n : Nat} (hm : (Ty.int m).isWritable = true)
    (hn : (Ty.int n).isWritable = true) : (Ty.int (max m n)).isWritable = true := by
  rcases Nat.le_total m n with hle | hle
  · rw [Nat.max_eq_right hle]
    exact hn
  · rw [Nat.max_eq_left hle]
    exact hm

/-- The types that code for an expression is written with, and that of its value. -/
theorem Compiles.writable {bindings : List (String × Value)} {k : Nat} {e : Expr}
    {texts : List StringConstant} {types : List Ty}
    (h : Compiles width bindings count k e code texts v)
    (hwidth : Decimal.isWritable width = true) (hbindings : BindingsFit types bindings)
    (htypes : ∀ type ∈ types, type.isWritable = true) :
    CodeWritable code ∧ v.type.isWritable = true := by
  induction h with
  | number _ => exact ⟨List.forall_mem_nil _, hwidth⟩
  | string => exact ⟨codeWritable_singleton nofun, Ty.isWritable_byte⟩
  | name hlookup =>
      obtain ⟨position, type, rfl, htype⟩ := hbindings _ (mem_of_lookup hlookup)
      exact ⟨List.forall_mem_nil _, htypes type (List.mem_of_getElem? htype)⟩
  | @binary _ _ m n operation _ _ _ _ _ _ _ _ _ l _ l' _ _ _ hm hn hl' hr' ihl ihr =>
      have hcommon : (Ty.int (max m n)).isWritable = true := by
        rw [hm, hn] at *
        exact isWritable_max ihl.2 ihr.2
      have hl : l'.type.isWritable = true := hl'.type_eq ▸ hcommon
      have hoperation : ∀ r', ∀ type ∈ (operation.combine l' r').types, type.isWritable = true := by
        intro r' type htype
        cases operation <;> exact List.mem_singleton.mp htype ▸ hl
      refine ⟨?_, ?_⟩
      · refine CodeWritable.append ?_ (codeWritable_singleton (hoperation _))
        exact ((ihl.1.append ihr.1).append (hl'.writable ihl.2 hcommon)).append
          (hr'.writable ihr.2 hcommon)
      · cases operation with
        | add | sub => exact hl
        | less => exact Ty.isWritable_bit

end Code

/-- All types in a draft can be written. -/
structure DraftWritable (types : List Ty) (d : Draft) : Prop where
  ret : d.ret.isWritable = true
  parameters : d.parameters.map (·.type) = types
  written : ∀ type ∈ types, type.isWritable = true
  bindings : BindingsFit types d.bindings
  blocks : ∀ b ∈ d.blocks, ∀ type ∈ b.types, type.isWritable = true

namespace DraftWritable

variable {types : List Ty} {d : Draft}

theorem append (h : DraftWritable types d) {code : List Instruction} (hcode : CodeWritable code) :
    DraftWritable types (d.append code) := by
  refine { h with blocks := forall_mem_modify h.blocks fun b hb type htype => ?_ }
  have hblock := h.blocks b (List.mem_of_getElem? hb)
  simp only [Ir.Block.types, List.flatMap_append, List.mem_append] at htype hblock
  rcases htype with (htype | htype) | htype
  · exact hblock type (.inl htype)
  · obtain ⟨i, hi, htype⟩ := List.mem_flatMap.mp htype
    exact hcode i hi type htype
  · exact hblock type (.inr htype)

theorem close (h : DraftWritable types d) {exit : Ir.Exit}
    (hexit : ∀ type ∈ exit.types, type.isWritable = true) : DraftWritable types (d.close exit) := by
  refine { h with blocks := forall_mem_modify h.blocks fun b hb type htype => ?_ }
  rcases List.mem_append.mp htype with htype | htype
  · exact h.blocks b (List.mem_of_getElem? hb) type (List.mem_append_left _ htype)
  · exact hexit type htype

theorem addBlockAfter (h : DraftWritable types d) (suffix : String) :
    DraftWritable types (d.addBlockAfter suffix) := by
  refine { h with blocks := fun b hb => ?_ }
  rcases List.mem_append.mp hb with hb | hb
  · exact h.blocks b hb
  · rw [List.mem_singleton.mp hb]
    exact fun _ htype => nomatch htype

theorem enter (h : DraftWritable types d) (position : Nat) :
    DraftWritable types (d.enter position) :=
  { h with }

theorem leave (h : DraftWritable types d) (next position : Nat) :
    DraftWritable types (d.leave next position) := by
  refine enter ?_ position
  rw [Draft.proceed]
  split
  · exact h
  · exact h.close (List.forall_mem_nil _)

theorem branch (h : DraftWritable types d) {c : Value} (hc : c.type.isWritable = true)
    (yes no : Nat) : DraftWritable types (d.close (.branch c yes no)) :=
  h.close (List.forall_mem_singleton.mpr hc)

theorem forkThen (h : DraftWritable types d) {c : Value} (hc : c.type.isWritable = true) :
    DraftWritable types (d.forkThen c) :=
  (((h.addBlockAfter ".if").addBlockAfter ".endif").branch hc _ _).enter _

theorem forkElse (h : DraftWritable types d) {c : Value} (hc : c.type.isWritable = true) :
    DraftWritable types (d.forkElse c) :=
  ((((h.addBlockAfter ".if").addBlockAfter ".else").addBlockAfter ".endif").branch hc _ _).enter _

theorem bind (h : DraftWritable types d) {name : String} {position : Nat} {type : Ty}
    (htype : types[position]? = some type) : DraftWritable types (d.bind name position type) :=
  { h with
    parameters := (map_type_bind d name position type).trans h.parameters
    bindings := h.bindings.bind htype name }

theorem bindAll (h : DraftWritable types d) {names : List (Token × Ir.Parameter × Nat)}
    (hnames : ∀ entry ∈ names, types[entry.2.2]? = some entry.2.1.type) :
    DraftWritable types (d.bindAll names) := by
  induction names generalizing d with
  | nil => exact h
  | cons entry rest ih =>
      exact ih (h.bind (hnames entry List.mem_cons_self))
        fun e he => hnames e (List.mem_cons_of_mem entry he)

theorem finish (h : DraftWritable types d) : DraftWritable types d.finish := by
  rw [Draft.finish]
  split
  · exact h
  · refine h.close ?_
    cases hret : d.ret with
    | void => exact List.forall_mem_nil _
    | int _ | pointer _ | function _ _ => exact List.forall_mem_singleton.mpr (hret ▸ h.ret)

end DraftWritable

variable {types : List Ty} {width : Nat}

theorem Compiles.draftWritable {d : Draft} {k : Nat} {e : Expr} {code : List Instruction}
    {texts : List StringConstant} {v : Value}
    (h : Compiles width d.bindings d.count k e code texts v)
    (hwidth : Decimal.isWritable width = true) (hd : DraftWritable types d) :
    CodeWritable code ∧ v.type.isWritable = true :=
  h.writable hwidth hd.bindings hd.written

mutual

theorem LowersBlock.writable {block : Block} {b b' : Build} :
    LowersBlock width block b b' → Decimal.isWritable width = true →
      DraftWritable types b.draft → DraftWritable types b'.draft
  | .mk hitems, hwidth, h => hitems.writable hwidth h

theorem LowersItems.writable {items : List Stmt} {b b' : Build} :
    LowersItems width items b b' → Decimal.isWritable width = true →
      DraftWritable types b.draft → DraftWritable types b'.draft
  | .nil, _, h => h
  | .unreachable _ _, _, h => h
  | .cons _ hitem hrest, hwidth, h => hrest.writable hwidth (hitem.writable hwidth h)

theorem Lowers.writable {s : Stmt} {b b' : Build} :
    Lowers width s b b' → Decimal.isWritable width = true →
      DraftWritable types b.draft → DraftWritable types b'.draft
  | .block hbody, hwidth, h => hbody.writable hwidth h
  | .ifThen _ _ _ he htest hyes, hwidth, h => by
    obtain ⟨hcode, hv⟩ := he.draftWritable hwidth h
    obtain ⟨hmore, hc⟩ := htest.writable hv
    exact (hyes.writable hwidth ((h.append (hcode.append hmore)).forkThen hc)).leave _ _
  | .ifElse _ _ _ he htest hyes hno, hwidth, h => by
    obtain ⟨hcode, hv⟩ := he.draftWritable hwidth h
    obtain ⟨hmore, hc⟩ := htest.writable hv
    have hyes := hyes.writable hwidth ((h.append (hcode.append hmore)).forkElse hc)
    exact (hno.writable hwidth (hyes.leave _ _)).leave _ _
  | .ret _ _ _ he hcoerce, hwidth, h => by
    obtain ⟨hcode, hv⟩ := he.draftWritable hwidth h
    refine (h.append (hcode.append (hcoerce.writable hv h.ret))).close ?_
    exact List.forall_mem_singleton.mpr (hcoerce.type_eq ▸ h.ret)
  | .directive _, _, h => by
    refine h.bindAll fun entry hentry => ?_
    have hmem := (List.of_mem_zip hentry).2
    rw [← h.parameters, List.getElem?_map, List.mem_zipIdx_iff_getElem?.mp hmem]
    rfl

end

theorem DraftWritable.start {ret : Ty} (hret : ret.isWritable = true)
    (htypes : ∀ type ∈ types, type.isWritable = true) :
    DraftWritable types (Draft.start ret (Emitter.parametersOf types)) where
  ret := hret
  parameters := map_type_parametersOf types
  written := htypes
  bindings := fun _ hentry => nomatch hentry
  blocks b hb := by
    rw [List.mem_singleton.mp hb]
    exact fun _ htype => nomatch htype

/-- The function that is made of a declaration can be written. -/
theorem FunctionDecl.writable_of_lower {d : FunctionDecl} {ret : Ty}
    {strings : List StringConstant} {events : List Event} {b : Build}
    (hwidth : Decimal.isWritable width = true)
    (hsignature : d.signature.lower width = .ok (ret, types))
    (h : d.lower width ⟨Draft.start ret (Emitter.parametersOf types), strings, events⟩ =
      (.ok (), b)) :
    (⟨d.name.text, ret, b.draft.parameters, b.draft.blocks⟩ : Ir.Function).types.all
      Ty.isWritable = true := by
  have hgives := Signature.gives_of_lower hsignature
  obtain ⟨events, b₁, hlowers, rfl⟩ := FunctionDecl.lowers_of_lower h
  have hstart := DraftWritable.start (hgives.ret hwidth) (hgives.types hwidth)
  have hwritable := (hlowers.writable hwidth hstart).finish
  refine List.all_eq_true.mpr fun type htype => ?_
  simp only [Ir.Function.types, List.cons_append, List.mem_cons, List.mem_append,
    List.mem_flatMap] at htype
  rcases htype with rfl | htype | ⟨block, hblock, htype⟩
  · exact hgives.ret hwidth
  · exact hgives.types hwidth type (hwritable.parameters ▸ htype)
  · exact hwritable.blocks block hblock type htype

end KestrelCompiler
