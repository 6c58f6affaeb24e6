import KestrelCompiler.Proofs.Faults.Emission
import KestrelCompiler.Proofs.Occurrences.Site

/-!
What comparisons tell. A comparison of two operands, one of which has more than one bit, compares
the integers that they stand for. Two single bits are compared as signed numbers, zero and minus
one, so that the answer is the reverse.
-/

namespace KestrelCompiler

open Ir (Ty Value Instruction)

namespace Word

/-- One bit is zero or one, and everything else is signed. -/
def integer {m : Nat} (bits : BitVec m) : Int :=
  if m = 1 then bits.toNat else bits.toInt

section Extension

variable {m n : Nat}

theorem toInt_extend (bits : BitVec m) (h : m ≤ n) (hone : n ≠ 1) :
    (extend n bits).toInt = integer bits := by
  rw [extend, integer]
  split
  · next hm =>
      subst hm
      have htoNat : (bits.setWidth n).toNat = bits.toNat := BitVec.toNat_setWidth_of_le h
      have hsmall : 2 * (bits.setWidth n).toNat < 2 ^ n := by
        have hbit := bits.isLt
        have hpow : 2 ^ 2 ≤ 2 ^ n := Nat.pow_le_pow_right (by decide) (by omega)
        omega
      rw [BitVec.toInt_eq_toNat_of_lt hsmall, htoNat]
  · exact BitVec.toInt_signExtend_of_le h

/-- As a signed number, a single bit is zero or minus one. -/
theorem toInt_extend_one (bits : BitVec m) (h : m ≤ 1) :
    (extend 1 bits).toInt = -integer bits := by
  rcases Nat.le_one_iff_eq_zero_or_eq_one.mp h with rfl | rfl
  · rw [BitVec.eq_nil bits]
    rfl
  · rw [extend_self]
    rcases BitVec.eq_zero_or_eq_one bits with rfl | rfl <;> rfl

/-- Signed comparison at the greater width, the reverse of what is meant where that is one bit. -/
theorem slt_extend_iff (x : BitVec m) (y : BitVec n) :
    (extend (max m n) x).slt (extend (max m n) y) = true ↔
      if max m n = 1 then integer y < integer x else integer x < integer y := by
  have hx := Nat.le_max_left m n
  have hy := Nat.le_max_right m n
  rw [BitVec.slt_iff_toInt_lt]
  split
  · next hone =>
      rw [hone] at hx hy ⊢
      rw [toInt_extend_one x hx, toInt_extend_one y hy]
      exact Int.neg_lt_neg_iff
  · next hmore => rw [toInt_extend x hx hmore, toInt_extend y hy hmore]

end Extension

end Word

/-- The code at the site ends in a comparison, and its answer on all arguments follows from the
integers that the operands stand for. -/
structure Compares (width : Nat) (d : FunctionDecl) (f : Ir.Function) (s : Scope)
    (left right : Expr) (site : Site) : Prop where
  stands : Ir.Holds f.blocks site.block site.start site.code
  less : ∃ before number l r, site.code = before ++ [⟨number, .less l r⟩] ∧
    site.value = ⟨.bit, .result number⟩
  answers : ∃ m n, ∀ args, d.signature.Takes width args → ∃ (x : BitVec m) (y : BitVec n),
    left.eval width args s = some (.int x) ∧
    right.eval width args (left.after s) = some (.int y) ∧
    ∃ answer, site.Gives f.blocks args (.bit answer) ∧
      (answer = true ↔ if max m n = 1 then Word.integer y < Word.integer x
        else Word.integer x < Word.integer y)

theorem Realizes.compares {width : Nat} {literals : List String} {d : FunctionDecl}
    {f : Ir.Function} {s : Scope} {left right : Expr} {op : Token} {site : Site}
    (h : Realizes width literals d f)
    (hsite : Emitted width (f.parameters.map (·.type)) f.blocks
      ⟨s, .binary .less left op right⟩ site) : Compares width d f s left right site := by
  have hgives := fun args (hargs : d.signature.Takes width args) => hsite.gives (h.argsFit hargs)
  obtain ⟨block, start, code, value⟩ := site
  obtain ⟨hstands, bindings, count, texts, hnames, hbindings, hcompiles⟩ := hsite
  cases hcompiles with
  | @binary _ _ m n _ _ _ _ codeL codeR coerceL coerceR _ _ l r l' r' hl hr hm hn hl' hr' =>
      refine ⟨hstands, ⟨_, _, l', r', rfl, rfl⟩, m, n, fun args hargs => ?_⟩
      obtain ⟨w, hw, -, hrun⟩ := hgives args hargs
      have hafter := hl.after s
      have hfit := h.argsFit hargs
      obtain ⟨a, _, ha, hevalL⟩ := hl.evaluates hnames hbindings hfit rfl fun _ => none
      obtain ⟨b, _, hb, hevalR⟩ := @Compiles.evaluates _ _ _ _ _ _ _ _ _ _ (left.after s) hr
        (by rw [hafter]; exact hnames) hbindings hfit
        (by rw [hafter, List.length_append, List.length_map]) fun _ => none
      obtain ⟨x, rfl⟩ := exists_bits_of_type hm hevalL.kind
      obtain ⟨y, rfl⟩ := exists_bits_of_type hn hevalR.kind
      refine ⟨x, y, ha, hb, _, ?_, Word.slt_extend_iff x y⟩
      have hcompare : (Expr.binary .less left op right).eval width args s =
          some (.bit ((Word.extend (max m n) x).slt (Word.extend (max m n) y))) := by
        rw [Expr.eval, ha, hb]
        rfl
      rw [← Option.some.inj (hw.symm.trans hcompare)]
      exact hrun

namespace Emitter

variable {program : Program} {width : Nat} {e : Emitter} {name triple text : String}

/-- Each live comparison has a comparison of its own in the emitted function, in the same order. It
tells whether the left operand is less than the right one, unless both have no more than one bit. -/
theorem comparisons_of_emit (hemit : (new program width name triple).emit = (.ok text, e))
    {i : Nat} {d : FunctionDecl} {f : Ir.Function} (hd : program.declarations[i]? = some d)
    (hf : e.module.functions[i]? = some f) :
    ∃ sites, (sites.filterMap Site.number?).Pairwise (· < ·) ∧
      List.Forall₂ (fun p site => ∀ left op right, p.expression = .binary .less left op right →
          Compares width d f p.scope left right site)
        (d.occurrences (literalsOf (program.declarations.take i))) sites := by
  have hrealizes := realizes_of_emit hemit hd hf
  obtain ⟨_, _, sites, hsites⟩ := hrealizes.exists_covers
  refine ⟨sites, hsites.ordered, hsites.emitted.imp fun p site hsite left op right hp => ?_⟩
  obtain ⟨s, expression⟩ := p
  subst hp
  exact hrealizes.compares hsite

/-- A bit is compared with a byte, and then with itself. -/
def mixedSource : String :=
  "f(bool, char) bool \x7b args! a, b if a < b \x7b \x7d : a < a \x7d"

theorem comparisons_of_emit_mixed : ∃ program text e d f,
    Program.parse mixedSource = .ok program ∧
    (new program 64 "main" unknownTriple).emit = (.ok text, e) ∧
    program.declarations[0]? = some d ∧ e.module.functions[0]? = some f ∧
    ∃ sites, (sites.filterMap Site.number?).Pairwise (· < ·) ∧
      List.Forall₂ (fun p site => ∀ left op right, p.expression = .binary .less left op right →
        Compares 64 d f p.scope left right site) (d.occurrences []) sites := by
  obtain ⟨program, text, e, d, f, hparse, hemit, hd, hf, -⟩ :=
    exists_function_of_any 64 mixedSource (fun _ _ => true) (by decide +kernel)
  exact ⟨program, text, e, d, f, hparse, hemit, hd, hf, comparisons_of_emit hemit hd hf⟩

/-- Two parameters of one bit are compared. -/
def bitsSource : String :=
  "f(bool, bool) bool \x7b args! a, b : a < b \x7d"

/-- The function names its two parameters of one bit and returns whether the first is less. -/
def comparesBits : FunctionDecl → Bool
  | ⟨_, signature, .mk _ [.directive _ _ [a, b], .ret _ (.binary .less (.name l) _ (.name r))] _⟩ =>
    signature.args.map (·.kind? 64) = [some (.int 1), some (.int 1)] &&
      signature.result? 64 = some (.int 1) && a.text ≠ b.text && l.text = a.text &&
      r.text = b.text
  | _ => false

/-- Such a function returns true on one and zero. -/
theorem eval_of_comparesBits {d : FunctionDecl} (h : comparesBits d = true) :
    d.signature.Takes 64 [.bit true, .bit false] ∧
      d.eval 64 [] [.bit true, .bit false] = some (some (.bit true)) ∧
      ∃ s left op right, ⟨s, .binary .less left op right⟩ ∈ d.occurrences [] ∧
        left.eval 64 [.bit true, .bit false] s = some (.int 1#1) ∧
        right.eval 64 [.bit true, .bit false] (left.after s) = some (.int 0#1) := by
  unfold comparesBits at h
  split at h
  · next name signature _ _ _ a b marker l op r _ =>
      simp only [Bool.and_eq_true, decide_eq_true_eq] at h
      obtain ⟨⟨⟨⟨hargs, hresult⟩, hne⟩, hl⟩, hr⟩ := h
      let s : Scope := Scope.bind {} [a, b]
      have hlookup : s.names.lookup l.text = some 0 := by
        change List.lookup l.text [(b.text, 1), (a.text, 0)] = some 0
        rw [hl, List.lookup_cons, beq_eq_false_iff_ne.mpr hne, List.lookup_cons_self]
      have hlookup' : s.names.lookup r.text = some 1 := by
        change List.lookup r.text [(b.text, 1), (a.text, 0)] = some 1
        rw [hr, List.lookup_cons_self]
      have hleft : (Expr.name l).eval 64 [.bit true, .bit false] s = some (.int 1#1) := by
        rw [Expr.eval, hlookup]
        rfl
      have hright : (Expr.name r).eval 64 [.bit true, .bit false] ((Expr.name l).after s) =
          some (.int 0#1) := by
        rw [Expr.after, Expr.eval, hlookup']
        rfl
      refine ⟨hargs, ?_, s, .name l, op, .name r, List.mem_of_getLast? rfl, hleft, hright⟩
      have hless : (Expr.binary .less (.name l) op (.name r)).eval 64 [.bit true, .bit false] s =
          some (.bit true) := by
        rw [Expr.eval, hleft, hright]
        rfl
      have hrest : runItems 64 [.bit true, .bit false] (signature.result? 64) s
          [.ret marker (.binary .less (.name l) op (.name r))] =
          some (.returned (.bit true)) := by
        rw [runItems, Stmt.run_ret marker hless hresult (Word.convert_self _)]
        rfl
      change ((runItems 64 [.bit true, .bit false] (signature.result? 64) s _).bind _) = _
      rw [hrest]
      rfl
  · cases h

/-- One is less than zero, where both are single bits. -/
theorem one_less_than_zero : ∃ program text e d f, Program.parse bitsSource = .ok program ∧
    (new program 64 "main" unknownTriple).emit = (.ok text, e) ∧
    program.declarations[0]? = some d ∧ e.module.functions[0]? = some f ∧
    (∃ s left op right, ⟨s, .binary .less left op right⟩ ∈ d.occurrences [] ∧
      left.eval 64 [.bit true, .bit false] s = some (.int 1#1) ∧
      right.eval 64 [.bit true, .bit false] (left.after s) = some (.int 0#1)) ∧
    f.Returns [.bit true, .bit false] (some (.bit true)) ∧
    ¬ Word.integer 1#1 < Word.integer 0#1 := by
  obtain ⟨program, text, e, d, f, hparse, hemit, hd, hf, hcompares⟩ :=
    exists_function_of_any 64 bitsSource (fun d _ => comparesBits d) (by decide +kernel)
  obtain ⟨htakes, heval, hoperands⟩ := eval_of_comparesBits hcompares
  have himplements : Implements 64 [] d f :=
    ((defines_of_emit hemit).1.implements (by decide) rfl).2 0 d f hd hf
  obtain ⟨result, hresult, hreturns⟩ := himplements.returns _ htakes
  have htrue : some (.bit true) = result := Option.some.inj (heval.symm.trans hresult)
  exact ⟨program, text, e, d, f, hparse, hemit, hd, hf, hoperands, (hreturns _).mpr htrue,
    by decide⟩

end Emitter

end KestrelCompiler
