import KestrelCompiler.Proofs.Faults.Expression

/-!
Faults of statements. In a function whose types are lowered, lowering a statement at a place with
some scope stops exactly where there is a fault in its live part, with one of its faults.
-/

namespace KestrelCompiler

open Ir (Ty Value Instruction StringConstant)
open Lower

/-- Some element of a list has a property although its name is bound, by an earlier element if not
before the list. -/
def Repeated {α : Type} (name : α → String) (bound : List String) (l : List α) (P : α → Prop) :
    Prop :=
  ∃ before a rest, l = before ++ a :: rest ∧ (name a ∈ bound ∨ name a ∈ before.map name) ∧ P a

section Repeated

variable {α : Type} {name : α → String} {bound : List String} {P : α → Prop}

theorem not_repeated_nil : ¬ Repeated name bound [] P := by
  rintro ⟨before, a, rest, hnil, -⟩
  exact List.append_ne_nil_of_right_ne_nil before (List.cons_ne_nil a rest) hnil.symm

theorem repeated_cons_iff {a : α} {rest : List α} : Repeated name bound (a :: rest) P ↔
    (name a ∈ bound ∧ P a) ∨ Repeated name (name a :: bound) rest P := by
  constructor
  · rintro ⟨before, b, others, hl, hbound, hb⟩
    cases before with
    | nil =>
        cases hl
        exact .inl ⟨hbound.resolve_right List.not_mem_nil, hb⟩
    | cons first before =>
        cases hl
        rw [List.map_cons, List.mem_cons, or_left_comm, ← or_assoc, ← List.mem_cons] at hbound
        exact .inr ⟨before, b, others, rfl, hbound, hb⟩
  · rintro (⟨hbound, ha⟩ | ⟨before, b, others, rfl, hbound, hb⟩)
    · exact ⟨[], a, rest, rfl, .inl hbound, ha⟩
    · rw [List.mem_cons, or_assoc, or_left_comm, ← List.mem_cons, ← List.map_cons] at hbound
      exact ⟨a :: before, b, others, rfl, hbound, hb⟩

end Repeated

def NamesHaveFault (bound : List String) (args : List Token) (f : LoweringFault) : Prop :=
  Repeated Token.text bound args fun arg => f = ⟨.duplicateParameter arg.text, arg.span.start⟩

section Directive

variable {written : Prop} {sig : Signature} {s : Scope} {b : Build} {f : LoweringFault}

theorem decides_bindNames {args : List Token} {parameters : List Ir.Parameter} {k : Nat}
    {names : List (String × Nat)} (hlength : args.length ≤ parameters.length)
    (hnames : NamesMatch names b.draft.bindings) :
    Decides written (bindNames (args.zip (parameters.zipIdx k)) b).1
      (NamesHaveFault (names.map Prod.fst) args) := by
  induction args generalizing parameters k names b with
  | nil => exact fun f => not_repeated_nil
  | cons arg rest ih =>
      cases parameters with
      | nil => cases hlength
      | cons p parameters =>
          have hbound := hnames.isSome_lookup arg.text
          refine Decides.congr ?_ fun f => repeated_cons_iff.symm
          rw [List.zipIdx_cons, List.zip_cons_cons, bindNames,
            draft_bind]
          split
          · next hsome => exact ⟨.inl ⟨hbound.mp hsome, rfl⟩, fun _ => rfl⟩
          · next hnone =>
              have hrest := @ih (b.withDraft (·.bind arg.text k p.type)) parameters (k + 1)
                ((arg.text, k) :: names) (Nat.le_of_succ_le_succ hlength) (hnames.cons _ _ _)
              refine hrest.congr fun f => ?_
              have hnew : arg.text ∉ names.map Prod.fst := fun hmem => hnone (hbound.mpr hmem)
              exact ⟨.inr, fun h => h.resolve_left fun h => hnew h.1⟩

theorem hasFault_directive_iff {name bang : Token} {args : List Token} :
    (Stmt.directive name bang args).HasFault sig s f ↔
      (name.text ≠ "args" ∧ f = ⟨.unknownDirective name.text, name.span.start⟩) ∨
      (name.text = "args" ∧ ((∃ extra, args[sig.args.length]? = some extra ∧
          f = ⟨.tooManyNames args.length sig.args.length, extra.span.start⟩) ∨
        NamesHaveFault (s.names.map Prod.fst) args f)) := by
  constructor
  · rintro (_ | _ | _ | _ | _ | _ | _ | _ | _ | hname | ⟨hname, hextra⟩ | ⟨hname, hargs, hbound⟩)
    · exact .inl ⟨hname, rfl⟩
    · exact .inr ⟨hname, .inl ⟨_, hextra, rfl⟩⟩
    · exact .inr ⟨hname, .inr ⟨_, _, _, hargs, hbound, rfl⟩⟩
  · rintro (⟨hname, rfl⟩ | ⟨hname, ⟨extra, hextra, rfl⟩ | ⟨before, arg, rest, hargs, hbound, rfl⟩⟩)
    · exact .unknownDirective hname
    · exact .tooManyNames hname hextra
    · exact .duplicate hname hargs hbound

end Directive

section Function

variable {width : Nat} {sig : Signature} {ret : Ty} {types : List Ty} {s : Scope} {b : Build}
  {f : LoweringFault}

theorem Signature.Gives.length_parameters {written : Prop} (hsig : sig.Gives written ret types)
    (h : Matches ret types s b) : b.draft.parameters.length = sig.args.length := by
  have hlength := congrArg List.length hsig.args
  rw [← h.parameters, List.length_map, List.length_map, List.length_map] at hlength
  exact hlength

theorem decides_lowerDirective {written : Prop} (hsig : sig.Gives written ret types)
    (h : Matches ret types s b) (name bang : Token) (args : List Token) :
    Decides written (lowerDirective name args b).1
      ((Stmt.directive name bang args).HasFault sig s) := by
  refine Decides.congr ?_ fun f => hasFault_directive_iff.symm
  have hparameters := hsig.length_parameters h
  rw [lowerDirective]
  split
  · next hname => exact ⟨.inl ⟨hname, rfl⟩, fun _ => rfl⟩
  · next hname =>
      have hname : name.text = "args" := Decidable.of_not_not hname
      beta_reduce
      rw [draft_bind]
      cases hextra : args[b.draft.parameters.length]? with
      | some extra =>
          rw [hparameters] at hextra ⊢
          exact ⟨.inr ⟨hname, .inl ⟨extra, hextra, rfl⟩⟩, fun _ => rfl⟩
      | none =>
          refine (decides_bindNames (List.getElem?_eq_none_iff.mp hextra) h.names).congr fun f => ?_
          rw [hparameters] at hextra
          simp [hname, hextra]

theorem hasFault_ret_iff {marker : Token} {value : Expr} {a : Bool}
    (hresult : sig.resultIsAddress? = some a) :
    (Stmt.ret marker value).HasFault sig s f ↔ value.HasFault sig s f ∨
      (value.isAddress? sig s = some !a ∧
        ∃ type target, f = ⟨.noConversion type target, value.span.start⟩) := by
  constructor
  · rintro (_ | _ | _ | _ | _ | _ | hnone | hvalue | ⟨hvalue, hresult', hne⟩)
    · rw [hresult] at hnone
      cases hnone
    · exact .inl hvalue
    · obtain rfl := Option.some.inj (hresult.symm.trans hresult')
      refine .inr ⟨?_, _, _, rfl⟩
      rw [hvalue, Bool.eq_not_of_ne hne]
  · rintro (hvalue | ⟨hvalue, type, target, rfl⟩)
    · exact .value hvalue
    · exact .conversion hvalue hresult (by simp)

/-- What the value is converted to is what the function gives back. -/
theorem decides_returned {written : Prop} {v : Value} {a a' : Bool} (hret : ret.isAddress? = some a)
    (hv : v.type.isAddress? = some a') (hwritten : written → v.type.isWritable = true)
    (hwrittenRet : written → ret.isWritable = true) (l : Location)
    (hopen : b.draft.isClosed = false) :
    Decides written ((do let v ← coerce v ret l; close (.ret v) : Lower Unit) b).1 fun f =>
      some a' = some (!a) ∧ ∃ type target, f = ⟨.noConversion type target, l⟩ := by
  by_cases hsame : a' = a
  · subst hsame
    obtain ⟨v', code, -, hrun⟩ := exists_coerce hv hret l hopen
    rw [← Build.isClosed_emit b code []] at hopen
    rw [Step.bind_of_ok hrun, close_of_open hopen]
    exact fun f hf => by simp at hf
  · rw [Step.bind_of_error (coerce_of_ne hv hret hsame l b)]
    refine ⟨⟨congrArg some (Bool.eq_not_of_ne hsame), _, _, rfl⟩, fun h => ?_⟩
    simp [LoweringError.isWritable, hwritten h, hwrittenRet h]

theorem decides_lowerReturn
    (hsig : sig.Gives (Decimal.isWritable width = true) ret types)
    (hopen : b.draft.isClosed = false) (h : Matches ret types s b) (marker : Token) (value : Expr) :
    Decides (Decimal.isWritable width = true) (lowerReturn width marker value b).1
      ((Stmt.ret marker value).HasFault sig s) := by
  rw [lowerReturn, draft_bind, h.ret]
  have hresult := hsig.result
  cases haddress : ret.isAddress? with
  | none =>
      rw [if_pos (hsig.void haddress)]
      exact ⟨.noResult (hresult.symm.trans haddress), fun _ => rfl⟩
  | some a =>
      have hvoid : ret ≠ .void := by
        rintro rfl
        cases haddress
      rw [if_neg hvoid]
      refine Decides.congr ?_ fun f => (hasFault_ret_iff (hresult.symm.trans haddress)).symm
      refine decides_bind (value.decides_lower hsig hopen h.names h.bindings) fun v b₁ hrun => ?_
      obtain ⟨code, texts, hvalue, rfl⟩ := Expr.compiles_of_lower hrun
      obtain ⟨a', hv, hvalue'⟩ := hvalue.isAddress? h.names h.bindings hsig
      rw [hvalue']
      have hwritten := fun hwidth => (hvalue.writable hwidth h.bindings (hsig.types hwidth)).2
      rw [← Build.isClosed_emit b code texts] at hopen
      exact decides_returned haddress hv hwritten hsig.ret _ hopen

theorem hasFault_block_iff {left right : Token} {items : List Stmt} :
    (Block.mk left items right).HasFault sig s f ↔ ItemsHaveFault sig s items f :=
  ⟨fun | .mk h => h, .mk⟩

theorem itemsHaveFault_cons_iff {item : Stmt} {rest : List Stmt} :
    ItemsHaveFault sig s (item :: rest) f ↔
      item.HasFault sig s f ∨ item.closes = false ∧ ItemsHaveFault sig (item.after s) rest f := by
  constructor
  · rintro (hitem | ⟨hopen, hrest⟩)
    · exact .inl hitem
    · exact .inr ⟨hopen, hrest⟩
  · rintro (hitem | ⟨hopen, hrest⟩)
    · exact .here hitem
    · exact .later hopen hrest

theorem hasFault_ifThen_iff {keyword : Token} {condition : Expr} {yes : Block} :
    (Stmt.ifThen keyword condition yes).HasFault sig s f ↔
      condition.HasFault sig s f ∨ yes.HasFault sig (condition.after s) f := by
  constructor
  · rintro (_ | hcondition | hyes)
    · exact .inl hcondition
    · exact .inr hyes
  · rintro (hcondition | hyes)
    · exact .thenCondition hcondition
    · exact .thenBranch hyes

theorem hasFault_ifElse_iff {keyword : Token} {condition : Expr} {yes no : Block} :
    (Stmt.ifElse keyword condition yes no).HasFault sig s f ↔
      condition.HasFault sig s f ∨ yes.HasFault sig (condition.after s) f ∨
        no.HasFault sig (yes.after (condition.after s)) f := by
  constructor
  · rintro (_ | _ | _ | hcondition | hyes | hno)
    · exact .inl hcondition
    · exact .inr (.inl hyes)
    · exact .inr (.inr hno)
  · rintro (hcondition | hyes | hno)
    · exact .elseCondition hcondition
    · exact .yesBranch hyes
    · exact .noBranch hno

/-- What a condition is lowered to can be tested. -/
theorem exists_test {written : Prop} (hsig : sig.Gives written ret types)
    (hopen : b.draft.isClosed = false) (h : Matches ret types s b) {condition : Expr} {v : Value}
    {b₁ : Build}
    (hrun : condition.lower width b = (.ok v, b₁)) (l : Location) :
    ∃ c code test texts,
      Compiles width b.draft.bindings b.draft.count b.strings.length condition code texts v ∧
      Tests (b.draft.count + code.length) v test c ∧
      truth v l b₁ = (.ok c, b.emit (code ++ test) texts) := by
  obtain ⟨code, texts, hcode, rfl⟩ := Expr.compiles_of_lower hrun
  obtain ⟨a, hv, -⟩ := hcode.isAddress? h.names h.bindings hsig
  rw [← Build.isClosed_emit b code texts] at hopen
  obtain ⟨c, test, htest, htruth⟩ := exists_truth hv l hopen
  rw [Build.emit_emit, List.append_nil] at htruth
  exact ⟨c, code, test, texts, hcode, htest, htruth⟩

/-- A condition is lowered and tested before what depends on it. -/
theorem decides_condition {written : Prop} (hsig : sig.Gives written ret types)
    (hopen : b.draft.isClosed = false) (h : Matches ret types s b) (condition : Expr)
    {next : Value → Lower Unit} {faults : LoweringFault → Prop}
    (hnext : ∀ c code test texts v,
      Compiles width b.draft.bindings b.draft.count b.strings.length condition code texts v →
      Tests (b.draft.count + code.length) v test c →
      Decides written (next c (b.emit (code ++ test) texts)).1 faults) :
    Decides written ((do
      let c ← truth (← condition.lower width) condition.span.start
      next c : Lower Unit) b).1 fun f => condition.HasFault sig s f ∨ faults f := by
  refine decides_bind (condition.decides_lower hsig hopen h.names h.bindings) fun v b₁ hrun => ?_
  obtain ⟨c, code, test, texts, hcode, htest, htruth⟩ := exists_test hsig hopen h hrun _
  rw [Step.bind_of_ok htruth]
  exact hnext c code test texts v hcode htest

mutual

theorem Block.decides_lower
    (hsig : sig.Gives (Decimal.isWritable width = true) ret types) {s : Scope} {b : Build} :
    ∀ block : Block, b.draft.IsOpen → Matches ret types s b →
      Decides (Decimal.isWritable width = true) (block.lower width b).1 (block.HasFault sig s)
  | .mk left items _, hopen, h =>
    (decides_lowerItems hsig left.span.start items hopen h).congr
      fun _ => hasFault_block_iff.symm

theorem decides_lowerItems
    (hsig : sig.Gives (Decimal.isWritable width = true) ret types) {s : Scope} {b : Build}
    (block : Location) : ∀ items : List Stmt, b.draft.IsOpen → Matches ret types s b →
      Decides (Decimal.isWritable width = true) (lowerItems width block items b).1
        (ItemsHaveFault sig s items)
  | [], _, _ => fun f h => nomatch h
  | item :: rest, hopen, h => by
    rw [lowerItems_of_open hopen.not_closed]
    refine Decides.congr ?_ fun f => itemsHaveFault_cons_iff.symm
    refine decides_bind (Stmt.decides_lower hsig item hopen h) fun _ b₁ hrun => ?_
    have hlowers := lowers_of_lower item hopen.not_closed hrun
    obtain ⟨hmatches, hcloses⟩ := hlowers.matches hopen h
    rw [← hcloses]
    cases hclosed : b₁.draft.isClosed with
    | true =>
        obtain ⟨events, hrest⟩ := exists_lowerItems_of_closed width block rest hclosed
        rw [hrest]
        exact fun f hf => nomatch hf.1
    | false =>
        have hopen₁ : b₁.draft.IsOpen := ⟨(hlowers.extends hopen).inside, hclosed⟩
        refine (decides_lowerItems hsig block rest hopen₁ hmatches).congr fun f => ?_
        simp

theorem Stmt.decides_lower
    (hsig : sig.Gives (Decimal.isWritable width = true) ret types) {s : Scope} {b : Build} :
    ∀ stmt : Stmt, b.draft.IsOpen → Matches ret types s b →
      Decides (Decimal.isWritable width = true) (stmt.lower width b).1 (stmt.HasFault sig s)
  | .block body, hopen, h =>
    (Block.decides_lower hsig body hopen h).congr fun _ => ⟨.block, fun | .block h => h⟩
  | .ifThen keyword condition yes, hopen, h => by
    refine Decides.congr ?_ fun f => hasFault_ifThen_iff.symm
    refine decides_condition hsig hopen.not_closed h condition
      fun c code test texts v he htest => ?_
    have hcode := Draft.isOpen_append hopen (code ++ test)
    rw [forkThen_eq c _ hcode.not_closed]
    have hfork := (Draft.extends_forkThen hcode c).2.isOpen
    have hmatches := (h.emit he test).withDraft (f := (·.forkThen c)) rfl rfl rfl
    exact decides_bind_ok (Block.decides_lower hsig yes hfork hmatches) fun _ _ _ => ⟨_, _, rfl⟩
  | .ifElse keyword condition yes no, hopen, h => by
    refine Decides.congr ?_ fun f => hasFault_ifElse_iff.symm
    refine decides_condition hsig hopen.not_closed h condition
      fun c code test texts v he htest => ?_
    have hcode := Draft.isOpen_append hopen (code ++ test)
    rw [forkElse_eq c _ _ hcode.not_closed]
    have hfork := (Draft.extends_forkElse hcode c).2.isOpen
    have hmatches := (h.emit he test).withDraft (f := (·.forkElse c)) rfl rfl rfl
    refine decides_bind (Block.decides_lower hsig yes hfork hmatches) fun _ b₁ hrun => ?_
    have hlowers := lowersBlock_of_lower yes hrun
    have hleave := (Draft.extends_leave_yes hcode (hlowers.extends hfork.inside)).2.isOpen
    have hno := Block.decides_lower hsig no hleave ((hlowers.matches hfork hmatches).1.leave _ _)
    rw [update_bind]
    exact decides_bind_ok hno fun _ _ _ => ⟨_, _, rfl⟩
  | .ret marker value, hopen, h => decides_lowerReturn hsig hopen.not_closed h marker value
  | .directive name bang args, _, h => decides_lowerDirective hsig h name bang args

end

end Function

end KestrelCompiler
