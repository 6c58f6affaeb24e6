import KestrelCompiler.Proofs.Faults.Written
import KestrelCompiler.Proofs.Meaning.Liveness

/-!
Faults of expressions. The value of an expression that is lowered is an address where its tree says
so. Lowering stops exactly where there is a fault in the tree, with one of its faults; a conversion
stops where it would lead from a number to an address or back.
-/

namespace KestrelCompiler

open Ir (Ty Value Instruction StringConstant)

namespace Ir.Ty

variable {type : Ty}

theorem exists_of_integer (h : type.isAddress? = some false) : ∃ width, type = .int width := by
  cases type with
  | int width => exact ⟨width, rfl⟩
  | void | pointer _ | function _ _ => cases h

theorem exists_of_address (h : type.isAddress? = some true) : ∃ target, type = .pointer target := by
  cases type with
  | pointer target => exact ⟨target, rfl⟩
  | int _ | void | function _ _ => cases h

end Ir.Ty

namespace Lower

variable {α β : Type} {written : Prop} {faults more : LoweringFault → Prop} {x : Lower α}
  {next : α → Lower β} {b : Build}

theorem decides_bind (h : Decides written (x b).1 faults)
    (hnext : ∀ a b', x b = (.ok a, b') → Decides written (next a b').1 more) :
    Decides written ((x >>= next) b).1 fun f => faults f ∨ more f := by
  rcases hx : x b with ⟨stop | a, b'⟩
  · rw [Step.bind_of_error hx]
    rw [hx] at h
    exact h.stop fun _ => .inl
  · rw [Step.bind_of_ok hx]
    rw [hx] at h
    refine (hnext a b' hx).congr fun f => ?_
    exact ⟨.inr, fun hf => hf.resolve_left (h f)⟩

/-- What comes after cannot stop. -/
theorem decides_bind_ok (h : Decides written (x b).1 faults)
    (hnext : ∀ a b', x b = (.ok a, b') → ∃ c b'', next a b' = (.ok c, b'')) :
    Decides written ((x >>= next) b).1 faults := by
  have hnever : ∀ a b', x b = (.ok a, b') →
      Decides written (next a b').1 fun _ => False := by
    intro a b' ha
    obtain ⟨c, b'', hc⟩ := hnext a b' ha
    rw [hc]
    exact fun _ => id
  exact (decides_bind h hnever).congr fun _ => iff_of_eq (or_false _)

variable {v : Value} {target : Ty} {l : Location}

/-- Between two integers or two addresses there is always a conversion. -/
theorem exists_coerce {a : Bool} (hv : v.type.isAddress? = some a)
    (htarget : target.isAddress? = some a) (l : Location) (hopen : b.draft.isClosed = false) :
    ∃ v' code, Coerces b.draft.count v target code v' ∧
      coerce v target l b = (.ok v', b.emit code []) := by
  suffices hruns : ∃ v' b', coerce v target l b = (.ok v', b') by
    obtain ⟨v', b', hrun⟩ := hruns
    obtain ⟨code, hcode, rfl⟩ := coerces_of_coerce hrun
    exact ⟨v', code, hcode, hrun⟩
  unfold coerce
  split
  · exact ⟨_, _, rfl⟩
  cases a with
  | false =>
      obtain ⟨m, hm⟩ := Ty.exists_of_integer hv
      obtain ⟨n, rfl⟩ := Ty.exists_of_integer htarget
      simp only [hm]
      split
      · exact ⟨_, _, push_of_open rfl hopen⟩
      split <;> exact ⟨_, _, push_of_open rfl hopen⟩
  | true =>
      obtain ⟨p, hp⟩ := Ty.exists_of_address hv
      obtain ⟨q, rfl⟩ := Ty.exists_of_address htarget
      simp only [hp]
      exact ⟨_, _, push_of_open rfl hopen⟩

theorem coerce_of_ne {a a' : Bool} (hv : v.type.isAddress? = some a)
    (htarget : target.isAddress? = some a') (hne : a ≠ a') (l : Location) (b : Build) :
    coerce v target l b = (.error (.fault ⟨.noConversion v.type target, l⟩), b) := by
  have hsame : v.type ≠ target := by
    intro hsame
    rw [hsame, htarget] at hv
    exact hne (Option.some.inj hv).symm
  unfold coerce
  rw [if_neg hsame]
  cases a with
  | false =>
      obtain rfl : a' = true := by simpa using hne
      obtain ⟨m, hm⟩ := Ty.exists_of_integer hv
      obtain ⟨p, rfl⟩ := Ty.exists_of_address htarget
      simp only [hm]
      rfl
  | true =>
      obtain rfl : a' = false := by simpa using hne
      obtain ⟨p, hp⟩ := Ty.exists_of_address hv
      obtain ⟨n, rfl⟩ := Ty.exists_of_integer htarget
      simp only [hp]
      rfl

/-- Integers and addresses can be tested. -/
theorem exists_truth {a : Bool} (hv : v.type.isAddress? = some a) (l : Location)
    (hopen : b.draft.isClosed = false) :
    ∃ c code, Tests b.draft.count v code c ∧ truth v l b = (.ok c, b.emit code []) := by
  suffices hruns : ∃ c b', truth v l b = (.ok c, b') by
    obtain ⟨c, b', hrun⟩ := hruns
    obtain ⟨code, hcode, rfl⟩ := tests_of_truth hrun
    exact ⟨c, code, hcode, hrun⟩
  unfold truth
  cases a with
  | false =>
      obtain ⟨m, hm⟩ := Ty.exists_of_integer hv
      simp only [hm]
      split
      · exact ⟨_, _, rfl⟩
      · exact ⟨_, _, push_of_open rfl hopen⟩
  | true =>
      obtain ⟨target, htarget⟩ := Ty.exists_of_address hv
      simp only [htarget]
      exact ⟨_, _, push_of_open rfl hopen⟩

end Lower

theorem mapM_eq_none_iff {α β : Type} {g : α → Option β} {l : List α} :
    l.mapM g = none ↔ ∃ a ∈ l, g a = none := by
  induction l with
  | nil => simp
  | cons a rest ih =>
      rw [List.mapM_cons, List.exists_mem_cons_iff, ← ih]
      cases g a with
      | none => simp
      | some b => cases rest.mapM g <;> simp

/-- Numbers are decimal and not too long. -/
theorem numberValue?_eq_none_iff {text : List Char} : numberValue? text = none ↔
    Decimal.maxDigits < (text.filter (· ≠ '_')).length ∨
      ∃ c ∈ text, c ≠ '_' ∧ Text.digitValue? c = none := by
  simp only [numberValue?]
  split
  · next hshort =>
      rw [Option.map_eq_none_iff, mapM_eq_none_iff, or_iff_right (Nat.not_lt.mpr hshort)]
      simp [and_assoc]
  · next hlong => exact ⟨fun _ => .inl (Nat.lt_of_not_le hlong), fun _ => rfl⟩

section Expression

variable {width : Nat} {sig : Signature} {ret : Ty} {types : List Ty} {s : Scope}

/-- The value of a parameter is an address where the signature says so. -/
theorem Signature.Gives.parameter {written : Prop} (h : sig.Gives written ret types)
    {position : Nat} {type : Ty} (htype : types[position]? = some type) :
    ∃ t, sig.args[position]? = some t ∧ type.isAddress? = some t.isAddress := by
  have hargs := congrArg (·[position]?) h.args
  simp only [List.getElem?_map, htype, Option.map_some] at hargs
  obtain ⟨t, ht, hsame⟩ := Option.map_eq_some_iff.mp hargs.symm
  exact ⟨t, ht, hsame.symm⟩

theorem Compiles.isAddress? {written : Prop} {bindings : List (String × Value)} {count k : Nat}
    {e : Expr} {code : List Instruction} {texts : List StringConstant} {v : Value}
    (h : Compiles width bindings count k e code texts v) (hnames : NamesMatch s.names bindings)
    (hbindings : BindingsFit types bindings) (hsig : sig.Gives written ret types) :
    ∃ a, v.type.isAddress? = some a ∧ e.isAddress? sig s = some a := by
  cases h with
  | number _ => exact ⟨false, rfl, rfl⟩
  | string => exact ⟨true, rfl, rfl⟩
  | @name _ _ token v hlookup =>
      obtain ⟨position, type, rfl, htype⟩ := hbindings _ (mem_of_lookup hlookup)
      obtain ⟨t, ht, hsame⟩ := hsig.parameter htype
      have hname := hnames token.text
      rw [hlookup] at hname
      obtain ⟨_, hposition, hoperand⟩ := Option.map_eq_some_iff.mp hname.symm
      cases hoperand
      refine ⟨_, hsame, ?_⟩
      rw [Expr.isAddress?, hposition, Option.bind_some, ht]
      rfl
  | @binary _ _ _ _ operation _ _ _ _ _ _ _ _ _ _ _ _ _ _ _ _ _ hl' _ =>
      refine ⟨false, ?_, rfl⟩
      cases operation with
      | add | sub => exact congrArg Ty.isAddress? hl'.type_eq
      | less => rfl

theorem NamesMatch.isSome_lookup {names : List (String × Nat)} {bindings : List (String × Value)}
    (h : NamesMatch names bindings) (name : String) :
    (bindings.lookup name).isSome = true ↔ name ∈ names.map Prod.fst := by
  have hsome := congrArg Option.isSome (h name)
  rw [Option.isSome_map, Option.isSome_map] at hsome
  rw [hsome, List.lookup_isSome_iff, List.mem_map]
  simp only [beq_iff_eq, @eq_comm _ name]

namespace Expr

variable {b : Build} {written : Prop}

theorem hasFault_number_iff {token : Token} {f : LoweringFault} :
    (number token).HasFault sig s f ↔ numberValue? token.text.toList = none ∧
      f = ⟨.invalidNumber token.text, token.span.start⟩ := by
  rw [numberValue?_eq_none_iff]
  constructor
  · rintro (hlong | ⟨hc, hblank, hdigit⟩)
    · exact ⟨.inl hlong, rfl⟩
    · exact ⟨.inr ⟨_, hc, hblank, hdigit⟩, rfl⟩
  · rintro ⟨hlong | ⟨c, hc, hblank, hdigit⟩, rfl⟩
    · exact .tooLong hlong
    · exact .notDecimal hc hblank hdigit

theorem hasFault_binary_iff {operation : Operation} {left right : Expr} {op : Token}
    {f : LoweringFault} : (binary operation left op right).HasFault sig s f ↔
      left.HasFault sig s f ∨ right.HasFault sig s f ∨
        (left.isAddress? sig s = some true ∧ f = ⟨.operandNotInteger op.text, left.span.start⟩) ∨
        (right.isAddress? sig s = some true ∧
          f = ⟨.operandNotInteger op.text, right.span.start⟩) := by
  constructor
  · rintro (_ | _ | _ | hleft | hright | hleft | hright)
    · exact .inl hleft
    · exact .inr (.inl hright)
    · exact .inr (.inr (.inl ⟨hleft, rfl⟩))
    · exact .inr (.inr (.inr ⟨hright, rfl⟩))
  · rintro (hleft | hright | ⟨hleft, rfl⟩ | ⟨hright, rfl⟩)
    · exact .left hleft
    · exact .right hright
    · exact .leftAddress hleft
    · exact .rightAddress hright

theorem decides_integerWidth {v : Value} {a : Bool} (hv : v.type.isAddress? = some a) (op : Token)
    (l : Location) (b : Build) :
    Decides written (integerWidth v op l b).1 fun f =>
      some a = some true ∧ f = ⟨.operandNotInteger op.text, l⟩ := by
  unfold integerWidth
  cases a with
  | false =>
      obtain ⟨m, hm⟩ := Ty.exists_of_integer hv
      simp only [hm]
      exact fun f hf => nomatch hf.1
  | true =>
      obtain ⟨p, hp⟩ := Ty.exists_of_address hv
      simp only [hp]
      exact ⟨⟨trivial, rfl⟩, fun _ => rfl⟩

/-- Integers of any widths can be brought to the larger one and combined. -/
theorem exists_combined {l r : Value} {m n : Nat} (hl : l.type = .int m) (hr : r.type = .int n)
    (operation : Operation) (left right : Location) (hopen : b.draft.isClosed = false) :
    ∃ v b', (do
      let l ← Lower.coerce l (.int (max m n)) left
      let r ← Lower.coerce r (.int (max m n)) right
      match operation with
      | .add => Lower.push (.add l r)
      | .sub => Lower.push (.sub l r)
      | .less => Lower.push (.less l r) : Lower Value) b = (.ok v, b') := by
  have hcommon : (Ty.int (max m n)).isAddress? = some false := rfl
  have hleft : l.type.isAddress? = some false := hl ▸ rfl
  have hright : r.type.isAddress? = some false := hr ▸ rfl
  obtain ⟨l', codeL, hcoerceL, hl'⟩ := Lower.exists_coerce hleft hcommon left hopen
  rw [← Build.isClosed_emit b codeL []] at hopen
  obtain ⟨r', codeR, hcoerceR, hr'⟩ := Lower.exists_coerce hright hcommon right hopen
  rw [← Build.isClosed_emit _ codeR []] at hopen
  rw [Step.bind_of_ok hl', Step.bind_of_ok hr']
  -- both operands have the common type by now, so that the builder takes them
  have hbalanced := operation.isBalanced_combine (hcoerceL.type_eq.trans hcoerceR.type_eq.symm)
  have hpush := Lower.push_of_open hbalanced hopen
  cases operation <;> exact ⟨_, _, hpush⟩

theorem decides_lower (hsig : sig.Gives written ret types) (e : Expr)
    (hopen : b.draft.isClosed = false) (hnames : NamesMatch s.names b.draft.bindings)
    (hbindings : BindingsFit types b.draft.bindings) :
    Decides written (e.lower width b).1 (e.HasFault sig s) := by
  induction e generalizing b with
  | number token =>
      refine Decides.congr ?_ fun f => hasFault_number_iff.symm
      unfold lower
      cases hvalue : numberValue? token.text.toList with
      | none => exact ⟨⟨rfl, rfl⟩, fun _ => rfl⟩
      | some value => exact fun f hf => absurd hf.1 (Option.some_ne_none value)
  | string token =>
      have hopen : ({ b with strings := b.strings ++ [⟨token.text⟩] } : Build).draft.isClosed =
          false := hopen
      unfold lower
      rw [Lower.addString_bind, Lower.push_of_open (by rfl) hopen]
      intro f hf
      cases hf
  | name token =>
      unfold lower
      rw [Lower.draft_bind]
      have hbound := hnames.isSome_lookup token.text
      cases hlookup : b.draft.bindings.lookup token.text with
      | none =>
          rw [hlookup] at hbound
          exact ⟨.unknown fun hmem => Bool.false_ne_true (hbound.mpr hmem), fun _ => rfl⟩
      | some value =>
          rw [hlookup] at hbound
          rintro f (_ | _ | hunknown)
          exact hunknown (hbound.mp rfl)
  | binary operation left op right ihl ihr =>
      refine Decides.congr ?_ fun f => hasFault_binary_iff.symm
      refine Lower.decides_bind (ihl hopen hnames hbindings) fun l b₁ hrun => ?_
      obtain ⟨codeL, textsL, hl, rfl⟩ := compiles_of_lower hrun
      obtain ⟨a, ha, hleft⟩ := hl.isAddress? hnames hbindings hsig
      rw [← Build.isClosed_emit b codeL textsL] at hopen
      refine Lower.decides_bind (ihr hopen hnames hbindings) fun r b₂ hrun => ?_
      obtain ⟨codeR, textsR, hr, rfl⟩ := compiles_of_lower hrun
      rw [← Build.isClosed_emit _ codeR textsR] at hopen
      obtain ⟨a', ha', hright⟩ := hr.isAddress? hnames hbindings hsig
      rw [hleft, hright]
      refine Lower.decides_bind (decides_integerWidth ha op _ _) fun m b₃ hrun => ?_
      obtain ⟨hm, rfl⟩ := integerWidth_eq_ok hrun
      refine Lower.decides_bind_ok (decides_integerWidth ha' op _ _) fun n b₄ hrun => ?_
      obtain ⟨hn, rfl⟩ := integerWidth_eq_ok hrun
      exact exists_combined hm hn operation _ _ hopen

end Expr

end Expression

end KestrelCompiler
