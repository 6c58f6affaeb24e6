import KestrelCompiler.Proofs.Meaning.Evaluation

/-!
Live expressions. Those of a function, and all their parts, are listed in the order in which their
code is complete, each with the scope before it.
-/

namespace KestrelCompiler

/-- An expression of the live text. -/
structure Occurrence where
  /-- The scope before the expression. -/
  scope : Scope
  expression : Expr

/-- The parts of an expression; the expression itself is the last one. -/
def Expr.occurrences (s : Scope) : Expr → List Occurrence
  | number token => [⟨s, number token⟩]
  | string token => [⟨s, string token⟩]
  | name token => [⟨s, name token⟩]
  | binary operation left op right =>
    left.occurrences s ++ right.occurrences (left.after s) ++ [⟨s, binary operation left op right⟩]

mutual

def Block.occurrences (s : Scope) : Block → List Occurrence
  | .mk _ items _ => itemsOccurrences s items

/-- Dead statements have no occurrences. -/
def itemsOccurrences (s : Scope) : List Stmt → List Occurrence
  | [] => []
  | item :: rest =>
    item.occurrences s ++ if item.closes then [] else itemsOccurrences (item.after s) rest

def Stmt.occurrences (s : Scope) : Stmt → List Occurrence
  | .block body => body.occurrences s
  | .ifThen _ condition yes => condition.occurrences s ++ yes.occurrences (condition.after s)
  | .ifElse _ condition yes no =>
    condition.occurrences s ++ yes.occurrences (condition.after s) ++
      no.occurrences (yes.after (condition.after s))
  | .ret _ value => value.occurrences s
  | .directive _ _ _ => []

end

/-- The live expressions of a function, behind these string literals. -/
def FunctionDecl.occurrences (literals : List String) (d : FunctionDecl) : List Occurrence :=
  d.body.occurrences { literals }

def Expr.literal? : Expr → Option Token
  | string token => some token
  | number _ | name _ | binary _ _ _ _ => none

theorem Expr.literal?_eq_some {e : Expr} {token : Token} :
    e.literal? = some token ↔ e = .string token := by
  cases e with
  | string other => simp [literal?]
  | number _ | name _ | binary _ _ _ _ => simp [literal?]

/-- The texts of the string literals among some occurrences. -/
def textsOf (occurrences : List Occurrence) : List String :=
  (occurrences.filterMap (·.expression.literal?)).map (·.text)

@[simp] theorem textsOf_append (occurrences more : List Occurrence) :
    textsOf (occurrences ++ more) = textsOf occurrences ++ textsOf more := by
  simp [textsOf]

/-- Each string literal stands directly behind those that are listed before it. -/
def Follows (literals : List String) : List Occurrence → Prop
  | [] => True
  | p :: rest => (∀ token, p.expression = .string token → p.scope.literals = literals) ∧
    Follows (literals ++ textsOf [p]) rest

theorem follows_append {literals : List String} {occurrences more : List Occurrence} :
    Follows literals (occurrences ++ more) ↔
      Follows literals occurrences ∧ Follows (literals ++ textsOf occurrences) more := by
  induction occurrences generalizing literals with
  | nil => simp [Follows, textsOf]
  | cons p rest ih =>
      have htexts : textsOf (p :: rest) = textsOf [p] ++ textsOf rest :=
        textsOf_append [p] rest
      rw [List.cons_append, Follows, Follows, ih, htexts, List.append_assoc, and_assoc]

theorem follows_single {literals : List String} {p : Occurrence}
    (h : p.expression.literal? = none) : Follows literals [p] := by
  refine ⟨fun token htoken => ?_, trivial⟩
  rw [Expr.literal?_eq_some.mpr htoken] at h
  cases h

theorem Expr.literals_after (e : Expr) (s : Scope) :
    (e.after s).literals = s.literals ++ textsOf (e.occurrences s) := by
  induction e generalizing s with
  | number _ | name _ => simp [after, occurrences, textsOf, literal?]
  | string _ => rfl
  | binary operation left op right ihl ihr =>
      rw [after, ihr, ihl, occurrences, textsOf_append, textsOf_append, List.append_assoc]
      simp [textsOf, literal?]

theorem Expr.follows (e : Expr) (s : Scope) : Follows s.literals (e.occurrences s) := by
  induction e generalizing s with
  | number _ | name _ => exact follows_single rfl
  | string _ => exact ⟨fun _ _ => rfl, trivial⟩
  | binary operation left op right ihl ihr =>
      rw [occurrences, follows_append, follows_append, ← left.literals_after]
      exact ⟨⟨ihl s, ihr (left.after s)⟩, follows_single rfl⟩

/-- Naming parameters adds no literals. -/
theorem Scope.literals_bind (s : Scope) (args : List Token) :
    (s.bind args).literals = s.literals := by
  rw [bind]
  induction args.zipIdx generalizing s with
  | nil => rfl
  | cons entry rest ih => exact ih (s.name entry)

mutual

theorem Block.literals_after : ∀ (block : Block) (s : Scope),
    (block.after s).literals = s.literals ++ textsOf (block.occurrences s)
  | .mk _ items _, s => literals_itemsAfter items s

theorem literals_itemsAfter : ∀ (items : List Stmt) (s : Scope),
    (itemsAfter s items).literals = s.literals ++ textsOf (itemsOccurrences s items)
  | [], s => by simp [itemsAfter, itemsOccurrences, textsOf]
  | item :: rest, s => by
    have hitem := item.literals_after s
    rw [itemsAfter, itemsOccurrences, textsOf_append, ← List.append_assoc, ← hitem]
    split
    · simp [textsOf]
    · exact literals_itemsAfter rest _

theorem Stmt.literals_after : ∀ (stmt : Stmt) (s : Scope),
    (stmt.after s).literals = s.literals ++ textsOf (stmt.occurrences s)
  | .block body, s => body.literals_after s
  | .ifThen _ condition yes, s => by
    rw [Stmt.after, Stmt.occurrences, yes.literals_after, condition.literals_after, textsOf_append,
      List.append_assoc]
  | .ifElse _ condition yes no, s => by
    rw [Stmt.after, Stmt.occurrences, no.literals_after, yes.literals_after,
      condition.literals_after, textsOf_append, textsOf_append]
    simp only [List.append_assoc]
  | .ret _ value, s => value.literals_after s
  | .directive _ _ args, s => by
    rw [Stmt.after, Stmt.occurrences, s.literals_bind args]
    exact (List.append_nil _).symm

end

mutual

theorem Block.follows : ∀ (block : Block) (s : Scope), Follows s.literals (block.occurrences s)
  | .mk _ items _, s => follows_itemsOccurrences items s

theorem follows_itemsOccurrences : ∀ (items : List Stmt) (s : Scope),
    Follows s.literals (itemsOccurrences s items)
  | [], _ => trivial
  | item :: rest, s => by
    rw [itemsOccurrences, follows_append, ← item.literals_after]
    refine ⟨item.follows s, ?_⟩
    split
    · trivial
    · exact follows_itemsOccurrences rest _

theorem Stmt.follows : ∀ (stmt : Stmt) (s : Scope), Follows s.literals (stmt.occurrences s)
  | .block body, s => body.follows s
  | .ifThen _ condition yes, s => by
    rw [Stmt.occurrences, follows_append, ← condition.literals_after]
    exact ⟨condition.follows s, yes.follows _⟩
  | .ifElse _ condition yes no, s => by
    rw [Stmt.occurrences, follows_append, follows_append, textsOf_append, ← List.append_assoc,
      ← condition.literals_after, ← yes.literals_after]
    exact ⟨⟨condition.follows s, yes.follows _⟩, no.follows _⟩
  | .ret _ value, s => value.follows s
  | .directive _ _ _, _ => trivial

end

theorem FunctionDecl.literalsAfter_eq (d : FunctionDecl) (literals : List String) :
    d.literalsAfter literals = literals ++ textsOf (d.occurrences literals) :=
  d.body.literals_after { literals }

end KestrelCompiler
