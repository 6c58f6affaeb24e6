import KestrelCompiler.Proofs.Occurrences.Statement

/-!
Numbers as truth values. A condition holds where its number is not zero, while a function that gives
back one bit gives back the lowest bit of a number. Both agree on zero and on odd numbers, and on no
others.
-/

namespace KestrelCompiler

open Ir (Ty Value Instruction StringConstant Results)

namespace Word

variable {m : Nat} (x : BitVec m)

theorem convert_bit : (int x).convert (.int 1) = some (bit (x.getLsbD 0)) := by
  rcases Nat.lt_or_ge 1 m with hm | hm
  · rw [convert_truncate x hm, BitVec.setWidth_one]
    rfl
  · rw [convert_extend x hm]
    rcases Nat.le_one_iff_eq_zero_or_eq_one.mp hm with rfl | rfl
    · rw [BitVec.eq_nil x]
      rfl
    · rcases BitVec.eq_zero_or_eq_one x with rfl | rfl <;> rfl

theorem getLsbD_zero_iff : x.getLsbD 0 = true ↔ x.toNat % 2 = 1 := by
  rw [BitVec.getLsbD, Nat.testBit_zero, decide_eq_true_eq]

theorem isTrue_int : (int x).isTrue = true ↔ x ≠ 0 :=
  bne_iff_ne

/-- The lowest bit tells whether a number is zero only where that is zero or odd. -/
theorem getLsbD_zero_eq_isTrue_iff :
    x.getLsbD 0 = (int x).isTrue ↔ x = 0 ∨ x.toNat % 2 = 1 := by
  rw [Bool.eq_iff_iff, getLsbD_zero_iff, isTrue_int]
  constructor
  · intro h
    by_cases hx : x = 0
    · exact .inl hx
    · exact .inr (h.mpr hx)
  · rintro (rfl | hodd)
    · simp
    · refine ⟨fun _ hx => ?_, fun _ => hodd⟩
      rw [hx] at hodd
      simp at hodd

end Word

def Stmt.isDirective : Stmt → Bool
  | directive _ _ _ => true
  | block _ | ifThen _ _ _ | ifElse _ _ _ _ | ret _ _ => false

/-- The body returns the value, and before that it does nothing but name parameters. -/
def FunctionDecl.Answers (d : FunctionDecl) (names : List Stmt) (value : Expr) : Prop :=
  (∀ stmt ∈ names, stmt.isDirective = true) ∧ ∃ marker, d.body.items = names ++ [.ret marker value]

section Directives

variable {names : List Stmt} (rest : List Stmt)

/-- Directives only change the scope of what follows. -/
theorem runItems_directives (h : ∀ stmt ∈ names, stmt.isDirective = true) (width : Nat)
    (args : List Word) (result : Option Kind) (s : Scope) :
    runItems width args result s (names ++ rest) =
      runItems width args result (itemsAfter s names) rest := by
  induction names generalizing s with
  | nil => rfl
  | cons stmt names ih =>
      obtain ⟨hstmt, hnames⟩ := List.forall_mem_cons.mp h
      cases stmt with
      | directive name bang args => exact ih hnames _
      | block _ | ifThen _ _ _ | ifElse _ _ _ _ | ret _ _ => cases hstmt

theorem itemsStatements_directives (h : ∀ stmt ∈ names, stmt.isDirective = true) (s : Scope) :
    itemsStatements (itemsAfter s names) rest ⊆ itemsStatements s (names ++ rest) := by
  induction names generalizing s with
  | nil => exact List.Subset.refl _
  | cons stmt names ih =>
      obtain ⟨hstmt, hnames⟩ := List.forall_mem_cons.mp h
      cases stmt with
      | directive name bang args => exact List.subset_append_of_subset_right _ (ih hnames _)
      | block _ | ifThen _ _ _ | ifElse _ _ _ _ | ret _ _ => cases hstmt

end Directives

section Places

variable {width : Nat} {ret : Ty} {types : List Ty} {blocks : List Ir.Block} {s : Scope}

/-- What is returned as a bit is a number. -/
theorem Placed.exists_bits {marker : Token} {value : Expr}
    (h : Placed width .bit types blocks ⟨s, .ret marker value⟩) :
    ∃ m, ∀ args, ArgsFit types args → ∃ x : BitVec m, value.eval width args s = some (.int x) := by
  obtain ⟨b, b', hlowers, -, hmatches, -⟩ := h
  cases hlowers with
  | @ret _ _ _ texts v v' code coerce hret hvalue hcoerce =>
      rw [hmatches.ret] at hcoerce
      have htype : ∃ m, v.type = .int m := by
        cases hcoerce with
        | same htype => exact ⟨1, htype⟩
        | truncate htype _ _ | extendSign htype _ _ _ => exact ⟨_, htype⟩
        | extendZero htype _ _ => exact ⟨_, htype⟩
        | cast _ htarget => cases htarget
      obtain ⟨m, htype⟩ := htype
      refine ⟨m, fun args hargs => ?_⟩
      obtain ⟨w, _, hw, heval⟩ := hvalue.evaluates hmatches.names hmatches.bindings hargs
        hmatches.length_literals fun _ => none
      obtain ⟨x, rfl⟩ := exists_bits_of_type htype heval.kind
      exact ⟨x, hw⟩

/-- A conditional has become a fork, which goes by whether the condition is true. -/
theorem Placed.exists_fork {p : LiveStatement} (h : Placed width ret types blocks p)
    {condition : Expr} {yes : Block} {no : Option Block}
    (hconditional : p.statement.conditional? = some (condition, yes, no)) :
    ∃ fork : Fork, fork.Stands blocks ∧ fork.yes ≠ fork.no ∧
      BeginsAt width ret types blocks (condition.after p.scope) yes fork.yes ∧
      ∀ args, ArgsFit types args → ∃ w, condition.eval width args p.scope = some w ∧
        fork.Goes args w.isTrue := by
  obtain ⟨b, b', hlowers, hopen, hmatches, hgrow⟩ := h
  obtain ⟨fork, hfork⟩ := hlowers.becomesFork hconditional hopen hmatches hgrow
  refine ⟨fork, hfork.stands, ?_, hfork.first, fun args hargs => ?_⟩
  · rw [hfork.apart]
    exact Nat.ne_of_lt (Nat.lt_succ_self _)
  obtain ⟨code, test, texts, v, hcode, he, htest⟩ := hfork.code
  have hevaluates := he.evaluates hmatches.names hmatches.bindings hargs hmatches.length_literals
  obtain ⟨w, _, hw, -⟩ := hevaluates fun _ => none
  refine ⟨w, hw, fun results => ?_⟩
  obtain ⟨w', results₁, hw', heval⟩ := hevaluates results
  obtain rfl := Option.some.inj (hw.symm.trans hw')
  obtain ⟨tested, results₂, hkind, htrue, htested⟩ :=
    htest.evaluates heval.below heval.value heval.kind
  have hall := heval.append htested
  refine ⟨results₂, hcode ▸ hall.run, ?_⟩
  rw [Fork.exit, Ir.Exit.step, hall.value]
  simp [hkind, htrue]

end Places

theorem Signature.ret_eq_bit {width : Nat} {sig : Signature} {ret : Ty} {types : List Ty}
    (h : sig.lower width = .ok (ret, types)) (hbit : sig.result? width = some (.int 1)) :
    ret = .bit := by
  rw [(kinds_of_lower h).1] at hbit
  cases ret with
  | int n =>
      cases hbit
      rfl
  | void | pointer _ | function _ _ => cases hbit

/-- A function that gives back one bit gives back the lowest one of its value. -/
theorem Realizes.answers {width : Nat} {literals : List String} {d : FunctionDecl}
    {f : Ir.Function} (h : Realizes width literals d f) {names : List Stmt} {value : Expr}
    (hanswers : d.Answers names value) (hbit : d.signature.result? width = some (.int 1)) :
    ∃ m, ∀ args, d.signature.Takes width args → ∃ x : BitVec m,
      value.eval width args (itemsAfter { literals } names) = some (.int x) ∧
      f.Returns args (some (.bit (x.getLsbD 0))) := by
  obtain ⟨hnames, marker, hitems⟩ := hanswers
  obtain ⟨name, signature, left, items, right⟩ := d
  change items = names ++ [.ret marker value] at hitems
  subst hitems
  have hlive : ⟨itemsAfter { literals } names, .ret marker value⟩ ∈
      itemsStatements { literals } (names ++ [.ret marker value]) :=
    itemsStatements_directives _ hnames _ (List.mem_append_left _ (List.mem_singleton_self _))
  have hplaced := h.placed hlive
  rw [Signature.ret_eq_bit h.signature hbit] at hplaced
  obtain ⟨m, hbits⟩ := hplaced.exists_bits
  refine ⟨m, fun args hargs => ?_⟩
  obtain ⟨x, hx⟩ := hbits args (h.argsFit hargs)
  refine ⟨x, hx, h.returns_of_run hargs ?_⟩
  have hret := Stmt.run_ret marker hx hbit (Word.convert_bit x)
  change runItems width args (signature.result? width) { literals } _ = _
  rw [runItems_directives _ hnames, runItems, hret]
  rfl

namespace Emitter

variable {program : Program} {width : Nat} {e : Emitter} {name triple text : String}

/-- A function that gives back one bit returns the lowest bit of its value, and a conditional goes
on with its first branch where its condition is not zero. For one and the same number they come to
the same exactly if that is zero or odd. -/
theorem truths_of_emit (hemit : (new program width name triple).emit = (.ok text, e)) {i j : Nat}
    {d d' : FunctionDecl} {f f' : Ir.Function} (hd : program.declarations[i]? = some d)
    (hf : e.module.functions[i]? = some f) (hd' : program.declarations[j]? = some d')
    (hf' : e.module.functions[j]? = some f') {names : List Stmt} {value : Expr}
    (hanswers : d.Answers names value) (hbit : d.signature.result? width = some (.int 1))
    {s : Scope} {stmt : Stmt} {condition : Expr} {yes : Block} {no : Option Block}
    (hstmt : ⟨s, stmt⟩ ∈ d'.statements (literalsOf (program.declarations.take j)))
    (hconditional : stmt.conditional? = some (condition, yes, no)) :
    ∃ (m : Nat) (fork : Fork), fork.Stands f'.blocks ∧ fork.yes ≠ fork.no ∧
      BeginsAt width f'.ret (f'.parameters.map (·.type)) f'.blocks (condition.after s) yes
        fork.yes ∧
      ∀ args args', d.signature.Takes width args → d'.signature.Takes width args' →
        ∃ (x : BitVec m) (returned : Bool),
          value.eval width args
            (itemsAfter { literals := literalsOf (program.declarations.take i) } names) =
              some (.int x) ∧
          (∀ result, f.Returns args result ↔ result = some (.bit returned)) ∧
          (returned = true ↔ x.toNat % 2 = 1) ∧
          (condition.eval width args' s = some (.int x) → ∃ taken, fork.Goes args' taken ∧
            (taken = true ↔ x ≠ 0) ∧ (returned = taken ↔ x = 0 ∨ x.toNat % 2 = 1)) := by
  have hrealizes := realizes_of_emit hemit hd hf
  have hrealizes' := realizes_of_emit hemit hd' hf'
  obtain ⟨m, hreturns⟩ := hrealizes.answers hanswers hbit
  obtain ⟨fork, hstands, hapart, hbegins, hgoes⟩ :=
    (hrealizes'.placed hstmt).exists_fork hconditional
  refine ⟨m, fork, hstands, hapart, hbegins, fun args args' hargs hargs' => ?_⟩
  obtain ⟨x, hx, hreturn⟩ := hreturns args hargs
  refine ⟨x, x.getLsbD 0, hx, Ir.Function.Returns.iff_eq hreturn, Word.getLsbD_zero_iff x,
    fun hsame => ?_⟩
  obtain ⟨w, hw, htaken⟩ := hgoes args' (hrealizes'.argsFit hargs')
  obtain rfl := Option.some.inj (hsame.symm.trans hw)
  exact ⟨_, htaken, Word.isTrue_int x, Word.getLsbD_zero_eq_isTrue_iff x⟩

/-- The first function returns a number, and the second one asks for the same number. -/
def asksFor (text : String) : List FunctionDecl → Bool
  | [⟨_, signature, .mk _ [.ret _ (.number value)] _⟩,
      ⟨_, signature', .mk _ (.ifThen _ (.number condition) _ :: _) _⟩] =>
    value.text = text && condition.text = text && signature.args.isEmpty &&
      signature'.args.isEmpty && signature.result? 64 = some (.int 1)
  | _ => false

/-- Both numbers have the same text, and neither function takes anything. -/
structure Asks (text : String) (d d' : FunctionDecl) (value condition : Token) (yes : Block) :
    Prop where
  valueText : value.text = text
  conditionText : condition.text = text
  takes : d.signature.Takes 64 []
  takes' : d'.signature.Takes 64 []
  answers : d.Answers [] (.number value)
  bit : d.signature.result? 64 = some (.int 1)
  asks : ∃ keyword, ∀ literals,
    ⟨{ literals }, .ifThen keyword (.number condition) yes⟩ ∈ d'.statements literals

theorem exists_asks {text : String} {declarations : List FunctionDecl}
    (h : asksFor text declarations = true) : ∃ d d' value condition yes,
      declarations[0]? = some d ∧ declarations[1]? = some d' ∧
        Asks text d d' value condition yes := by
  unfold asksFor at h
  split at h
  · next name signature left marker value right name' signature' left' keyword condition yes _ _ =>
      simp only [Bool.and_eq_true, decide_eq_true_eq, List.isEmpty_iff] at h
      obtain ⟨⟨⟨⟨hvalue, hcondition⟩, hargs⟩, hargs'⟩, hbit⟩ := h
      refine ⟨_, _, value, condition, yes, rfl, rfl, hvalue, hcondition, ?_, ?_,
        ⟨List.forall_mem_nil _, marker, rfl⟩, hbit, keyword,
        fun literals => List.mem_append_left _ (List.mem_cons_self ..)⟩
      · exact congrArg (List.map _) hargs
      · exact congrArg (List.map _) hargs'
  · cases h

theorem eval_number {token : Token} {text : String} (htoken : token.text = text) {value : Nat}
    (hvalue : numberValue? text.toList = some value) (width : Nat) (args : List Word) (s : Scope) :
    (Expr.number token).eval width args s = some (.int (BitVec.ofNat width value)) := by
  rw [Expr.eval, htoken, hvalue]
  rfl

/-- An odd number is returned as a bit, and asked for. -/
def oddSource : String :=
  "f() bool { :3 } g() int { if 3 { :1 } :0 }"

theorem truths_of_emit_odd : ∃ program text e f f' fork, Program.parse oddSource = .ok program ∧
    (new program 64 "main" unknownTriple).emit = (.ok text, e) ∧
    e.module.functions[0]? = some f ∧ e.module.functions[1]? = some f' ∧
    Fork.Stands f'.blocks fork ∧ fork.Goes [] true ∧
    ∀ result, f.Returns [] result ↔ result = some (.bit true) := by
  obtain ⟨program, text, e, hparse, hemit, hasks⟩ := exists_emit_of_any 64 oddSource
    (fun declarations functions => asksFor "3" declarations && functions.length = 2)
    (by decide +kernel)
  simp only [Bool.and_eq_true, decide_eq_true_eq] at hasks
  obtain ⟨hasks, hlength⟩ := hasks
  obtain ⟨d, d', value, condition, yes, hd, hd', h⟩ := exists_asks hasks
  obtain ⟨f, f', hfunctions⟩ := List.length_eq_two.mp hlength
  have hf : e.module.functions[0]? = some f := by rw [hfunctions]; rfl
  have hf' : e.module.functions[1]? = some f' := by rw [hfunctions]; rfl
  obtain ⟨keyword, hlive⟩ := h.asks
  have hthree : numberValue? "3".toList = some 3 := by decide
  obtain ⟨m, fork, hstands, -, -, htruths⟩ := truths_of_emit hemit hd hf hd' hf' h.answers h.bit
    (hlive _) rfl
  obtain ⟨x, returned, hx, hreturns, hlowest, hfork⟩ := htruths [] [] h.takes h.takes'
  rw [eval_number h.valueText hthree] at hx
  cases hx
  obtain ⟨taken, hgoes, htaken, -⟩ := hfork (eval_number h.conditionText hthree ..)
  obtain rfl : taken = true := htaken.mpr (by decide)
  obtain rfl : returned = true := hlowest.mpr (by decide)
  exact ⟨program, text, e, f, f', fork, hparse, hemit, hf, hf', hstands, hgoes, hreturns⟩

/-- An even number is returned as a bit, and asked for. -/
def evenSource : String :=
  "f() bool { :2 } g() int { if 2 { :1 } :0 }"

/-- Two is false where it is returned, and true where it is asked for. -/
theorem two_is_true_and_false : ∃ program text e d d' f f',
    Program.parse evenSource = .ok program ∧
    (new program 64 "main" unknownTriple).emit = (.ok text, e) ∧
    program.declarations[0]? = some d ∧ e.module.functions[0]? = some f ∧
    program.declarations[1]? = some d' ∧ e.module.functions[1]? = some f' ∧
    d.signature.result? 64 = some (.int 1) ∧ d.signature.Takes 64 [] ∧ d'.signature.Takes 64 [] ∧
    (∃ value, d.Answers [] (.number value) ∧ value.text = "2") ∧
    f.Returns [] (some (.bit false)) ∧
    ∃ s keyword condition yes fork,
      ⟨s, .ifThen keyword (.number condition) yes⟩ ∈ d'.statements [] ∧ condition.text = "2" ∧
      Fork.Stands f'.blocks fork ∧ fork.yes ≠ fork.no ∧
      BeginsAt 64 f'.ret (f'.parameters.map (·.type)) f'.blocks s yes fork.yes ∧
      fork.Goes [] true := by
  obtain ⟨program, text, e, hparse, hemit, hasks⟩ := exists_emit_of_any 64 evenSource
    (fun declarations functions => asksFor "2" declarations &&
      literalsOf (declarations.take 1) = [] && functions.length = 2)
    (by decide +kernel)
  simp only [Bool.and_eq_true, decide_eq_true_eq] at hasks
  obtain ⟨⟨hasks, hliterals⟩, hlength⟩ := hasks
  obtain ⟨d, d', value, condition, yes, hd, hd', h⟩ := exists_asks hasks
  obtain ⟨f, f', hfunctions⟩ := List.length_eq_two.mp hlength
  have hf : e.module.functions[0]? = some f := by rw [hfunctions]; rfl
  have hf' : e.module.functions[1]? = some f' := by rw [hfunctions]; rfl
  obtain ⟨keyword, hlive⟩ := h.asks
  have htwo : numberValue? "2".toList = some 2 := by decide
  have hrealizes' := realizes_of_emit hemit hd' hf'
  rw [hliterals] at hrealizes'
  obtain ⟨m, hreturns⟩ := (realizes_of_emit hemit hd hf).answers h.answers h.bit
  obtain ⟨x, hx, hreturn⟩ := hreturns [] h.takes
  rw [eval_number h.valueText htwo] at hx
  cases hx
  obtain ⟨fork, hstands, hapart, hbegins, hgoes⟩ := (hrealizes'.placed (hlive [])).exists_fork rfl
  obtain ⟨w, hw, htaken⟩ := hgoes [] (hrealizes'.argsFit h.takes')
  rw [eval_number h.conditionText htwo] at hw
  cases hw
  exact ⟨program, text, e, d, d', f, f', hparse, hemit, hd, hf, hd', hf', h.bit, h.takes, h.takes',
    ⟨value, h.answers, h.valueText⟩, hreturn, _, keyword, condition, yes, fork, hlive [],
    h.conditionText, hstands, hapart, hbegins, htaken⟩

end Emitter

end KestrelCompiler
