import KestrelCompiler.Proofs.Grammar.Placement
import KestrelCompiler.Proofs.Meaning.Evaluation

/-!
Faults of programs, told by their trees. The rules say what is wrong at which place and not in which
order the places are looked at, so that a program may have many faults. They do not speak of the
width of `int`. Each fault stands at the start of a token.
-/

namespace KestrelCompiler

/-- `void` may only be a whole return type or stand behind a pointer, and no type has another name
than the four that are known. -/
inductive TypeExpr.HasFault : TypeExpr → LoweringFault → Prop
  | void {name : Token} : name.text = "void" →
    HasFault (.named name) ⟨.misplacedVoid, name.span.start⟩
  | unknown {name : Token} : name.text ∉ ["int", "bool", "char", "void"] →
    HasFault (.named name) ⟨.unknownType name.text, name.span.start⟩
  | pointer {inner : TypeExpr} {star : Token} {f : LoweringFault} : inner.isVoid = false →
    HasFault inner f → HasFault (.pointer inner star) f
  | argument {args : List TypeExpr} {ret : Option TypeExpr} {left right : Token} {arg : TypeExpr}
    {f : LoweringFault} : arg ∈ args → HasFault arg f → HasFault (.function args ret left right) f
  | result {args : List TypeExpr} {ret : TypeExpr} {left right : Token} {f : LoweringFault} :
    ret.isVoid = false → HasFault ret f → HasFault (.function args (some ret) left right) f

def Signature.HasFault (sig : Signature) (f : LoweringFault) : Prop :=
  sig.toType.HasFault f

/-- Tells addresses from integers. -/
def TypeExpr.isAddress : TypeExpr → Bool
  | named _ => false
  | pointer _ _ | function _ _ _ _ => true

/-- Tells whether a function gives back an address, if it gives back anything. -/
def Signature.resultIsAddress? (sig : Signature) : Option Bool :=
  (sig.ret.filter fun ret => !ret.isVoid).map TypeExpr.isAddress

section Function

variable (sig : Signature)

/-- Tells whether the value of an expression is an address, unless that is a name for nothing. -/
def Expr.isAddress? (s : Scope) : Expr → Option Bool
  | number _ => some false
  | string _ => some true
  | name token =>
    ((s.names.lookup token.text).bind (sig.args[·]?)).map TypeExpr.isAddress
  | binary _ _ _ _ => some false

inductive Expr.HasFault (s : Scope) : Expr → LoweringFault → Prop
  | tooLong {token : Token} :
    Decimal.maxDigits < (token.text.toList.filter (· ≠ '_')).length →
    HasFault s (.number token) ⟨.invalidNumber token.text, token.span.start⟩
  | notDecimal {token : Token} {c : Char} : c ∈ token.text.toList → c ≠ '_' →
    Text.digitValue? c = none →
    HasFault s (.number token) ⟨.invalidNumber token.text, token.span.start⟩
  | unknown {token : Token} : token.text ∉ s.names.map Prod.fst →
    HasFault s (.name token) ⟨.unknownName token.text, token.span.start⟩
  | left {operation : Operation} {left right : Expr} {op : Token} {f : LoweringFault} :
    HasFault s left f → HasFault s (.binary operation left op right) f
  | right {operation : Operation} {left right : Expr} {op : Token} {f : LoweringFault} :
    HasFault s right f → HasFault s (.binary operation left op right) f
  | leftAddress {operation : Operation} {left right : Expr} {op : Token} :
    left.isAddress? sig s = some true →
    HasFault s (.binary operation left op right) ⟨.operandNotInteger op.text, left.span.start⟩
  | rightAddress {operation : Operation} {left right : Expr} {op : Token} :
    right.isAddress? sig s = some true →
    HasFault s (.binary operation left op right) ⟨.operandNotInteger op.text, right.span.start⟩

mutual

inductive Block.HasFault : Scope → Block → LoweringFault → Prop
  | mk {s : Scope} {left right : Token} {items : List Stmt} {f : LoweringFault} :
    ItemsHaveFault s items f → Block.HasFault s (.mk left items right) f

/-- Dead statements have no faults. -/
inductive ItemsHaveFault : Scope → List Stmt → LoweringFault → Prop
  | here {s : Scope} {item : Stmt} {rest : List Stmt} {f : LoweringFault} :
    Stmt.HasFault s item f → ItemsHaveFault s (item :: rest) f
  | later {s : Scope} {item : Stmt} {rest : List Stmt} {f : LoweringFault} :
    item.closes = false → ItemsHaveFault (item.after s) rest f → ItemsHaveFault s (item :: rest) f

inductive Stmt.HasFault : Scope → Stmt → LoweringFault → Prop
  | block {s : Scope} {body : Block} {f : LoweringFault} :
    Block.HasFault s body f → Stmt.HasFault s (.block body) f
  | thenCondition {s : Scope} {keyword : Token} {condition : Expr} {yes : Block}
    {f : LoweringFault} :
    condition.HasFault sig s f → Stmt.HasFault s (.ifThen keyword condition yes) f
  | thenBranch {s : Scope} {keyword : Token} {condition : Expr} {yes : Block} {f : LoweringFault} :
    Block.HasFault (condition.after s) yes f → Stmt.HasFault s (.ifThen keyword condition yes) f
  | elseCondition {s : Scope} {keyword : Token} {condition : Expr} {yes no : Block}
    {f : LoweringFault} :
    condition.HasFault sig s f → Stmt.HasFault s (.ifElse keyword condition yes no) f
  | yesBranch {s : Scope} {keyword : Token} {condition : Expr} {yes no : Block}
    {f : LoweringFault} :
    Block.HasFault (condition.after s) yes f →
    Stmt.HasFault s (.ifElse keyword condition yes no) f
  | noBranch {s : Scope} {keyword : Token} {condition : Expr} {yes no : Block}
    {f : LoweringFault} :
    Block.HasFault (yes.after (condition.after s)) no f →
    Stmt.HasFault s (.ifElse keyword condition yes no) f
  | noResult {s : Scope} {marker : Token} {value : Expr} : sig.resultIsAddress? = none →
    Stmt.HasFault s (.ret marker value) ⟨.valueWithoutReturnType, marker.span.start⟩
  | value {s : Scope} {marker : Token} {value : Expr} {f : LoweringFault} :
    value.HasFault sig s f → Stmt.HasFault s (.ret marker value) f
  | conversion {s : Scope} {marker : Token} {value : Expr} {a b : Bool} {type target : Ir.Ty} :
    value.isAddress? sig s = some a → sig.resultIsAddress? = some b → a ≠ b →
    Stmt.HasFault s (.ret marker value) ⟨.noConversion type target, value.span.start⟩
  | unknownDirective {s : Scope} {name bang : Token} {args : List Token} : name.text ≠ "args" →
    Stmt.HasFault s (.directive name bang args) ⟨.unknownDirective name.text, name.span.start⟩
  | tooManyNames {s : Scope} {name bang extra : Token} {args : List Token} :
    name.text = "args" → args[sig.args.length]? = some extra →
    Stmt.HasFault s (.directive name bang args)
      ⟨.tooManyNames args.length sig.args.length, extra.span.start⟩
  | duplicate {s : Scope} {name bang arg : Token} {args before rest : List Token} :
    name.text = "args" → args = before ++ arg :: rest →
    arg.text ∈ s.names.map Prod.fst ∨ arg.text ∈ before.map (·.text) →
    Stmt.HasFault s (.directive name bang args) ⟨.duplicateParameter arg.text, arg.span.start⟩

end

end Function

inductive Program.HasFault (p : Program) : LoweringFault → Prop
  | signature {d : FunctionDecl} {f : LoweringFault} : d ∈ p.declarations →
    d.signature.HasFault f → HasFault p f
  | duplicate {d : FunctionDecl} {before rest : List FunctionDecl} :
    p.declarations = before ++ d :: rest → d.name.text ∈ before.map (·.name.text) →
    HasFault p ⟨.duplicateFunction d.name.text, d.name.span.start⟩
  | body {d : FunctionDecl} {f : LoweringFault} : d ∈ p.declarations →
    d.body.HasFault d.signature {} f → HasFault p f

/-- The point is the start of one of the tokens. -/
def Location.Starts (l : Location) (tokens : List Token) : Prop :=
  ∃ t ∈ tokens, l = t.span.start

namespace Location

variable {l : Location} {tokens others : List Token}

theorem starts_of_mem {t : Token} (h : t ∈ tokens) : t.span.start.Starts tokens :=
  ⟨t, h, rfl⟩

theorem Starts.mono (h : l.Starts tokens) (hsub : tokens ⊆ others) : l.Starts others := by
  obtain ⟨t, ht, hl⟩ := h
  exact ⟨t, hsub ht, hl⟩

@[simp] theorem starts_cons {t : Token} :
    l.Starts (t :: tokens) ↔ l = t.span.start ∨ l.Starts tokens := by
  simp [Starts]

@[simp] theorem starts_append :
    l.Starts (tokens ++ others) ↔ l.Starts tokens ∨ l.Starts others := by
  simp [Starts, or_and_right, exists_or]

theorem Starts.flatMap {α : Type} {a : α} {as : List α} {tokens : α → List Token}
    (h : l.Starts (tokens a)) (ha : a ∈ as) : l.Starts (as.flatMap tokens) :=
  h.mono fun _ ht => List.mem_flatMap.mpr ⟨a, ha, ht⟩

end Location

open Location

/-- An expression starts with a token. -/
theorem Expr.starts_span (e : Expr) : e.span.start.Starts e.tokens := by
  induction e with
  | number _ | string _ | name _ => exact starts_of_mem (List.mem_singleton_self _)
  | binary operation left op right ihl _ =>
      rw [tokens_binary, starts_append]
      exact .inl ihl

theorem TypeExpr.HasFault.starts {t : TypeExpr} {f : LoweringFault} (h : t.HasFault f) :
    f.location.Starts t.tokens := by
  induction h with
  | void _ | unknown _ => exact starts_of_mem (List.mem_singleton_self _)
  | pointer _ _ ih => simp [tokens_pointer, ih]
  | argument harg _ ih => simp [tokens_function, ih.flatMap harg]
  | result _ _ ih => simp [tokens_function, ih]

variable {sig : Signature} {f : LoweringFault}

theorem Expr.HasFault.starts {s : Scope} {e : Expr} (h : e.HasFault sig s f) :
    f.location.Starts e.tokens := by
  induction h with
  | tooLong _ | notDecimal _ _ _ | unknown _ => exact starts_of_mem (List.mem_singleton_self _)
  | left _ ih | right _ ih => simp [tokens_binary, ih]
  | @leftAddress _ left _ _ _ => simp [tokens_binary, left.starts_span]
  | @rightAddress _ _ right _ _ => simp [tokens_binary, right.starts_span]

mutual

theorem Block.HasFault.starts {b : Block} {s : Scope} {f : LoweringFault} :
    b.HasFault sig s f → f.location.Starts b.tokens
  | .mk hitems => by simp [Block.tokens_mk, hitems.starts]

theorem ItemsHaveFault.starts {items : List Stmt} {s : Scope} {f : LoweringFault} :
    ItemsHaveFault sig s items f → f.location.Starts (items.flatMap Stmt.tokens)
  | .here hitem => hitem.starts.flatMap List.mem_cons_self
  | .later _ hrest => hrest.starts.mono (List.subset_append_right _ _)

theorem Stmt.HasFault.starts {stmt : Stmt} {s : Scope} {f : LoweringFault} :
    stmt.HasFault sig s f → f.location.Starts stmt.tokens
  | .block hbody => hbody.starts
  | .thenCondition hcondition => by simp [Stmt.tokens_ifThen, hcondition.starts]
  | .thenBranch hyes => by simp [Stmt.tokens_ifThen, hyes.starts]
  | .elseCondition hcondition => by simp [Stmt.tokens_ifElse, hcondition.starts]
  | .yesBranch hyes => by simp [Stmt.tokens_ifElse, hyes.starts]
  | .noBranch hno => by simp [Stmt.tokens_ifElse, hno.starts]
  | .noResult _ => by simp [Stmt.tokens_ret]
  | .value hvalue => by simp [Stmt.tokens_ret, hvalue.starts]
  | @Stmt.HasFault.conversion _ _ _ value _ _ _ _ _ _ _ => by
    simp [Stmt.tokens_ret, value.starts_span]
  | .unknownDirective _ => by simp [Stmt.tokens_directive]
  | .tooManyNames _ hextra => by
    simp [Stmt.tokens_directive, starts_of_mem (List.mem_of_getElem? hextra)]
  | .duplicate _ hargs _ => by simp [Stmt.tokens_directive, hargs]

end

/-- A fault points at a token of its program. -/
theorem Program.HasFault.starts {p : Program} (h : p.HasFault f) :
    f.location.Starts p.part.tokens := by
  obtain ⟨decls⟩ := p
  rw [tokens_part]
  cases h with
  | signature hd hfault =>
      refine Starts.flatMap ?_ hd
      rw [FunctionDecl.tokens_mk, starts_cons, starts_append]
      exact .inr (.inl (TypeExpr.HasFault.starts hfault))
  | @duplicate d before rest hdecls _ =>
      have hd : d ∈ decls := by
        obtain rfl : decls = before ++ d :: rest := hdecls
        exact List.mem_append_right before List.mem_cons_self
      refine Starts.flatMap ?_ hd
      rw [FunctionDecl.tokens_mk, starts_cons]
      exact .inl rfl
  | body hd hfault =>
      refine Starts.flatMap ?_ hd
      rw [FunctionDecl.tokens_mk, starts_cons, starts_append]
      exact .inr (.inr hfault.starts)

end KestrelCompiler
