import KestrelCompiler.Proofs.Lowering.Typing
import KestrelCompiler.Proofs.Meaning.Evaluation
import KestrelCompiler.Proofs.Meaning.Machine

/-!
Meaning of the code of expressions. The code computes the word that the expression stands for, and it
leaves all earlier results alone.
-/

namespace KestrelCompiler

open Ir (Ty Value Instruction StringConstant Results execute)

/-- A value that does not depend on results with numbers above `n`. -/
def Ir.Value.Below (n : Nat) (v : Value) : Prop :=
  ∀ number, v.operand = .result number → number ≤ n

section Code

variable {args : List Word} {count : Nat} {results results' results'' : Results}
  {code more : List Instruction} {v v' : Value} {w w' : Word}

theorem Ir.Value.eval_of_agree {n : Nat} (h : v.Below n)
    (hagree : ∀ number ≤ n, results' number = results number) :
    v.eval args results' = v.eval args results := by
  obtain ⟨type, operand⟩ := v
  cases operand with
  | result number => exact hagree number (h number rfl)
  | parameter _ => rfl
  | number _ | null => cases type <;> rfl

/-- The code, after `count` numbers, leads from results to results in which `v` has the value `w`. -/
structure Evaluates (args : List Word) (count : Nat) (results : Results) (code : List Instruction)
    (v : Value) (w : Word) (results' : Results) : Prop where
  run : execute args results code = some results'
  keeps : ∀ number ≤ count, results' number = results number
  below : v.Below (count + code.length)
  value : v.eval args results' = some w
  kind : v.type.kind? = some w.kind

theorem Evaluates.nil (hbelow : v.Below count) (hvalue : v.eval args results = some w)
    (hkind : v.type.kind? = some w.kind) : Evaluates args count results [] v w results :=
  ⟨rfl, fun _ _ => rfl, hbelow, hvalue, hkind⟩

theorem Evaluates.single {operation : Ir.Operation} (hvalue : operation.eval args results = some w)
    (hkind : operation.type.kind? = some w.kind) :
    Evaluates args count results [⟨count + 1, operation⟩]
      ⟨operation.type, .result (count + 1)⟩ w (results.set (count + 1) w) where
  run := by simp [execute, hvalue]
  keeps number hnumber := if_neg (by omega)
  below number hnumber := by
    cases hnumber
    exact Nat.le_refl _
  value := if_pos rfl
  kind := hkind

/-- More code computes another value. -/
theorem Evaluates.append (h : Evaluates args count results code v w results')
    (h' : Evaluates args (count + code.length) results' more v' w' results'') :
    Evaluates args count results (code ++ more) v' w' results'' where
  run := (Ir.execute_append h.run).trans h'.run
  keeps number hnumber := (h'.keeps number (by omega)).trans (h.keeps number hnumber)
  below := by
    rw [List.length_append, ← Nat.add_assoc]
    exact h'.below
  value := h'.value
  kind := h'.kind

/-- More code leaves the value as it is. -/
theorem Evaluates.frame (h : Evaluates args count results code v w results')
    (h' : Evaluates args (count + code.length) results' more v' w' results'') :
    Evaluates args count results (code ++ more) v w results'' where
  run := (Ir.execute_append h.run).trans h'.run
  keeps number hnumber := (h'.keeps number (by omega)).trans (h.keeps number hnumber)
  below number hnumber := by
    have := h.below number hnumber
    rw [List.length_append]
    omega
  value := (Ir.Value.eval_of_agree h.below h'.keeps).trans h.value
  kind := h.kind

section Resize

variable {m n : Nat} {bits : BitVec m}

theorem eval_truncate (hvalue : v.eval args results = some (.int bits)) (h : n < m) :
    (Ir.Operation.truncate v (.int n)).eval args results = some (.int (bits.setWidth n)) :=
  Option.bind_eq_some_iff.mpr ⟨_, hvalue, if_pos (decide_eq_true h)⟩

theorem eval_extendSign (hvalue : v.eval args results = some (.int bits)) (h : m < n) :
    (Ir.Operation.extendSign v (.int n)).eval args results = some (.int (bits.signExtend n)) :=
  Option.bind_eq_some_iff.mpr ⟨_, hvalue, if_pos (decide_eq_true h)⟩

theorem eval_extendZero (hvalue : v.eval args results = some (.int bits)) (h : m < n) :
    (Ir.Operation.extendZero v (.int n)).eval args results = some (.int (bits.setWidth n)) :=
  Option.bind_eq_some_iff.mpr ⟨_, hvalue, if_pos (decide_eq_true h)⟩

end Resize

theorem exists_bits_of_type {n : Nat} (hv : v.type = .int n) (hkind : v.type.kind? = some w.kind) :
    ∃ bits : BitVec n, w = .int bits := by
  rw [hv] at hkind
  exact Word.exists_bits (Option.some.inj hkind).symm

theorem Coerces.evaluates {target : Ty} (h : Coerces count v target code v')
    (hbelow : v.Below count) (hvalue : v.eval args results = some w)
    (hkind : v.type.kind? = some w.kind) :
    ∃ kind w' results', target.kind? = some kind ∧ w.convert kind = some w' ∧
      Evaluates args count results code v' w' results' := by
  cases h with
  | same hsame =>
      exact ⟨_, w, results, hsame ▸ hkind, w.convert_self, .nil hbelow hvalue hkind⟩
  | truncate hv htype hlt =>
      obtain ⟨bits, rfl⟩ := exists_bits_of_type hv hkind
      subst htype
      exact ⟨_, _, _, rfl, Word.convert_truncate bits hlt, .single (eval_truncate hvalue hlt) rfl⟩
  | extendZero hv htype hlt =>
      obtain ⟨bits, rfl⟩ := exists_bits_of_type hv hkind
      subst htype
      exact ⟨_, _, _, rfl, Word.convert_zero bits hlt, .single (eval_extendZero hvalue hlt) rfl⟩
  | extendSign hv htype hlt hone =>
      obtain ⟨bits, rfl⟩ := exists_bits_of_type hv hkind
      subst htype
      exact ⟨_, _, _, rfl, Word.convert_sign bits hlt hone,
        .single (eval_extendSign hvalue hlt) rfl⟩
  | cast hv htype =>
      rw [hv] at hkind
      obtain ⟨a, rfl⟩ := Word.exists_address (Option.some.inj hkind).symm
      subst htype
      exact ⟨_, _, _, rfl, rfl, .single hvalue rfl⟩

/-- A test keeps whether the word counts as true. -/
theorem Tests.evaluates {c : Value} (h : Tests count v code c) (hbelow : v.Below count)
    (hvalue : v.eval args results = some w) (hkind : v.type.kind? = some w.kind) :
    ∃ w' results', w'.kind = .int 1 ∧ w'.isTrue = w.isTrue ∧
      Evaluates args count results code c w' results' := by
  cases h with
  | bit hbit =>
      have hone : w.kind = .int 1 := by
        rw [hbit] at hkind
        exact (Option.some.inj hkind).symm
      exact ⟨w, results, hone, rfl, .nil hbelow hvalue hkind⟩
  | nonzero hscalar =>
      have hresult : (Ir.Operation.nonzero v).eval args results = some (.bit w.isTrue) :=
        Option.bind_eq_some_iff.mpr ⟨w, hvalue, rfl⟩
      exact ⟨_, _, rfl, Word.isTrue_bit _, .single hresult rfl⟩

theorem Operation.combine_eval (operation : Operation) {n : Nat} {a b : BitVec n}
    (hv : v.eval args results = some (.int a)) (hv' : v'.eval args results = some (.int b)) :
    (operation.combine v v').eval args results = some (operation.compute a b) := by
  cases operation with
  | add | sub | less =>
      simp [Operation.combine, Ir.Operation.eval, hv, hv', Ir.onBits, Operation.compute]

theorem Operation.combine_kind (operation : Operation) {n : Nat} (hv : v.type = .int n)
    (v' : Value) (a b : BitVec n) :
    (operation.combine v v').type.kind? = some (operation.compute a b).kind := by
  cases operation with
  | add | sub => exact congrArg Ty.kind? hv
  | less => rfl

end Code

/-- Names stand for the same parameters on both sides. -/
def NamesMatch (names : List (String × Nat)) (bindings : List (String × Value)) : Prop :=
  ∀ name, (bindings.lookup name).map (·.operand) = (names.lookup name).map .parameter

/-- There is a word for each parameter, of the kind of its type. -/
def ArgsFit (types : List Ty) (args : List Word) : Prop :=
  ∀ (position : Nat) (type : Ty), types[position]? = some type →
    ∃ w, args[position]? = some w ∧ type.kind? = some w.kind

variable {width count k : Nat} {bindings : List (String × Value)} {e : Expr}
  {code : List Instruction} {texts : List StringConstant} {v : Value}

/-- String literals are numbered in the order of the text. -/
theorem Compiles.after (h : Compiles width bindings count k e code texts v) (s : Scope) :
    e.after s = { s with literals := s.literals ++ texts.map (·.text) } := by
  induction h generalizing s with
  | number _ | name _ => simp [Expr.after]
  | string => simp [Expr.after]
  | binary _ _ _ _ _ _ ihl ihr => simp [Expr.after, ihl, ihr]

theorem Compiles.evaluates {types : List Ty} {args : List Word} {s : Scope}
    (h : Compiles width bindings count k e code texts v) (hnames : NamesMatch s.names bindings)
    (hbindings : BindingsFit types bindings) (hargs : ArgsFit types args)
    (hk : k = s.literals.length) (results : Results) :
    ∃ w results', e.eval width args s = some w ∧
      Evaluates args count results code v w results' := by
  induction h generalizing s results with
  | @number _ _ value _ hvalue =>
      have hconstant : (⟨.int width, .number value⟩ : Value).eval args results =
          some (.int (BitVec.ofNat width value)) := by
        rw [← BitVec.ofInt_natCast]
        rfl
      exact ⟨_, results, by rw [Expr.eval, hvalue]; rfl, .nil nofun hconstant rfl⟩
  | string =>
      subst hk
      exact ⟨_, _, rfl, .single rfl rfl⟩
  | @name _ _ token v hlookup =>
      obtain ⟨position, type, rfl, htype⟩ := hbindings _ (mem_of_lookup hlookup)
      obtain ⟨w, hw, hkind⟩ := hargs position type htype
      have hname := hnames token.text
      rw [hlookup] at hname
      obtain ⟨_, hposition, hsame⟩ := Option.map_eq_some_iff.mp hname.symm
      cases hsame
      exact ⟨w, results, by rw [Expr.eval, hposition]; exact hw, .nil nofun hw hkind⟩
  | @binary _ _ m n operation left right op _ _ _ _ _ _ l r _ _ hl _ hm hn hl' hr' ihl ihr =>
      obtain ⟨a, results₁, ha, hevalL⟩ := ihl hnames hk results
      have hafter := hl.after s
      obtain ⟨b, results₂, hb, hevalR⟩ := @ihr (left.after s) (by rw [hafter]; exact hnames)
        (by rw [hafter, List.length_append, List.length_map, hk]) results₁
      have hl₂ := hevalL.frame hevalR
      have hr₂ := hevalL.append hevalR
      obtain ⟨_, a', results₃, hkindL, ha', hevalL'⟩ :=
        hl'.evaluates hl₂.below hl₂.value hl₂.kind
      have hl₃ := hl₂.append hevalL'
      have hr₃ := hr₂.frame hevalL'
      obtain ⟨_, b', results₄, hkindR, hb', hevalR'⟩ :=
        hr'.evaluates hr₃.below hr₃.value hr₃.kind
      cases hkindL
      cases hkindR
      have hl₄ := hl₃.frame hevalR'
      have hr₄ := hr₃.append hevalR'
      obtain ⟨x, rfl⟩ := exists_bits_of_type hm hevalL.kind
      obtain ⟨y, rfl⟩ := exists_bits_of_type hn hevalR.kind
      rw [Word.convert_extend x (Nat.le_max_left m n)] at ha'
      rw [Word.convert_extend y (Nat.le_max_right m n)] at hb'
      cases ha'
      cases hb'
      have hresult := operation.combine_eval hl₄.value hr₄.value
      refine ⟨_, _, by rw [Expr.eval, ha, hb]; rfl, hl₄.append (.single hresult ?_)⟩
      exact operation.combine_kind hl'.type_eq _ _ _

end KestrelCompiler
