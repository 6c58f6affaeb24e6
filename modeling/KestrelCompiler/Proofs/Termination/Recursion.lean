import KestrelCompiler.Proofs.Grammar.Named
import KestrelCompiler.Proofs.Termination.Levels

/-!
The grammar as a recursion. Each rule is given by what it does with the rules that it calls, and its
outcome depends on them only where it calls them. A call stands further on in the source, or at the
same cursor with a lower rank, so that the rules are found by recursion on what is left to read.
-/

namespace KestrelCompiler

open Relation

namespace Rule

def declarationOf (signature : Rule Signature) (block : Rule Block) : Rule FunctionDecl := do
  let name ← lexeme .identifier
  if ← sees (.literal "(") then
    let signature ← required signature .functionType
    let body ← required block .functionBody
    pure ⟨name, signature, body⟩
  else fail (.functionTypeAfter name.text)

def statementWith (block : Rule Block) (conditional returned directive : Rule Stmt) : Rule Stmt :=
  (Stmt.block <$> block) <|> conditional <|> returned <|> directive

def conditionalWith (expression : Rule Expr) (block : Rule Block) : Rule Stmt := do
  let keyword ← lexeme (.keyword "if")
  let condition ← required expression .condition
  let yes ← required block .block
  alternativeOf block keyword condition yes

def returnedOf (expression : Rule Expr) : Rule Stmt := do
  let marker ← token ":"
  let value ← required expression .returnValue
  pure (.ret marker value)

def blockWith (statement : Rule Stmt) : Rule Block := do
  let left ← token "\x7b"
  let items ← statementsOf statement []
  let right ← expect "\x7d"
  pure (.mk left items right)

end Rule

open Rule

namespace RuleName

/-- What a rule reads. -/
def Tree : RuleName → Type
  | program => Program
  | declaration => FunctionDecl
  | type => TypeExpr
  | signature => Signature
  | statement | conditional | returned | directive => Stmt
  | block => Block
  | expression | primary => Expr
  | stringLiteral => Token

def tree : (r : RuleName) → Rule r.Tree
  | program => Rule.program
  | declaration => Rule.declaration
  | type => Rule.type
  | signature => Rule.signature
  | statement => Rule.statement
  | conditional => Rule.conditional
  | returned => Rule.returned
  | directive => Rule.directive
  | block => Rule.block
  | expression => Rule.expression
  | primary => Rule.primary
  | stringLiteral => Rule.stringLiteral

def phrase : (r : RuleName) → r.Tree → Phrase
  | program => .program
  | declaration => .declaration
  | type => .type
  | signature => .signature
  | statement | conditional | returned | directive => .statement
  | block => .block
  | expression | primary => .expression
  | stringLiteral => .token

theorem rule_eq (r : RuleName) : r.rule = r.phrase <$> r.tree := by
  cases r <;> rfl

/-- What a rule does, given the rules that it calls. -/
def body (rules : ∀ r : RuleName, Rule r.Tree) : (r : RuleName) → Rule r.Tree
  | program => Program.mk <$> fix (itemsStep hasMore (rules declaration) .declaration) []
  | declaration => declarationOf (rules signature) (rules block)
  | type => (Signature.toType <$> rules signature) <|> namedType
  | signature => signatureOf (rules type)
  | statement => statementWith (rules block) (rules conditional) (rules returned)
      (rules directive)
  | conditional => conditionalWith (rules expression) (rules block)
  | returned => returnedOf (rules expression)
  | directive => Rule.directive
  | block => blockWith (rules statement)
  | expression => climb .binary (rules primary) PrecedenceLevel.all
  | primary => (Expr.number <$> lexeme .numeral) <|> (Expr.string <$> rules stringLiteral) <|>
      (Expr.name <$> lexeme .identifier)
  | stringLiteral => Rule.stringLiteral

/-- How far down the calls at one cursor can still go. -/
def rank : RuleName → Nat
  | expression => 2
  | program | type | statement | primary => 1
  | declaration | signature | conditional | returned | directive | block | stringLiteral => 0

theorem tree_eq_body (r : RuleName) : r.tree = r.body tree := by
  cases r with
  | type => exact type_eq
  | block => exact block_eq
  | _ => rfl

end RuleName

section Descent

variable {α β : Type} {c d : Cursor}

theorem Rule.onward_of_rounds {more : Rule Bool} {item : Rule α} {after : Rule β}
    (hmore : Forward more) (hitem : Forward item) (hadvances : Advances item)
    (hafter : Forward after) (h : ReflTransGen (Round more item after) c d) : c.Onward d := by
  refine Cursor.onward_of_reflTransGen (fun c d hround => ?_) h
  obtain ⟨c₁, a, c₂, b, hmore', hitem', hafter'⟩ := hround
  have hpast := (hmore.leadsTo hmore').trans_precedes (hadvances.precedes hitem hitem')
  exact hpast.trans_leadsTo (hafter.leadsTo hafter')

theorem Rule.OperandStep.precedes (h : OperandStep c d) : c.Precedes d := by
  obtain ⟨e, c₁, op, he, hadditive | ⟨c₂, hnone, hcomparison⟩⟩ := h
  · have hpast := advances_primary.precedes forward_primary he
    exact hpast.trans_leadsTo ((forward_optional (forward_operator _)).leadsTo hadditive)
  · have hpast := advances_primary.precedes forward_primary he
    have hskip := (forward_optional (forward_operator _)).leadsTo hnone
    exact hpast.trans_leadsTo
      (hskip.trans ((forward_optional (forward_operator _)).leadsTo hcomparison))

/-- A rule that does not apply leaves the cursor where it is, or behind the blanks there. -/
theorem Rule.AppliesTo.onward {r : Rule α} {opens : List Char → Prop} (h : AppliesTo r opens)
    (hnone : r c = (.noMatch, d)) : c.Onward d := by
  rw [h.still c d hnone]
  exact c.onward_skipBlank

/-- A rule is called further on, or at the same cursor by a rule of higher rank. -/
theorem RuleName.Calls.descends {r s : RuleName} (h : Calls (r, c) (s, d)) :
    c.Precedes d ∨ d = c ∧ s.rank < r.rank := by
  have hsame : ∀ {d : Cursor}, c.Onward d → s.rank < r.rank →
      c.Precedes d ∨ d = c ∧ s.rank < r.rank :=
    fun honward hlt => honward.symm.imp_right fun heq => ⟨heq, hlt⟩
  have hname : ∀ {t d}, lexeme .identifier c = (.matched t, d) → c.Precedes d :=
    fun hname => precedes_of_lexeme Lexeme.consumes_identifier hname
  have hif : ∀ {t d}, lexeme (.keyword "if") c = (.matched t, d) → c.Precedes d :=
    fun hif => precedes_of_lexeme (Lexeme.consumes_keyword "if") hif
  cases h with
  | declaration hrounds hmore =>
      have hrounds := onward_of_rounds forward_hasMore forward_declaration advances_declaration
        (forward_pure ()) hrounds
      obtain rfl : _ = d := congrArg Prod.snd hmore
      exact hsame (hrounds.trans (Cursor.onward_skipBlank _)) Nat.zero_lt_one
  | definitionSignature hword hopens =>
      exact .inl ((hname hword).trans_leadsTo ((forward_sees _).leadsTo hopens))
  | definitionBody hword hopens hs =>
      have hopens := (hname hword).trans_leadsTo ((forward_sees _).leadsTo hopens)
      exact .inl (hopens.trans_leadsTo (forward_signature.leadsTo hs))
  | functionType => exact .inr ⟨rfl, Nat.zero_lt_one⟩
  | argument hleft hrounds hmore =>
      have hrounds := onward_of_rounds (forward_continues _) forward_type advances_type
        (forward_token _) hrounds
      have hpast := (precedes_of_token hleft).trans_leadsTo hrounds.leadsTo
      exact .inl (hpast.trans_leadsTo ((forward_continues _).leadsTo hmore))
  | result hleft hargs hright =>
      have hpast := (precedes_of_token hleft).trans_leadsTo
        ((forward_typesOf forward_type []).leadsTo hargs)
      exact .inl (hpast.trans_leadsTo ((forward_expect _).leadsTo hright))
  | innerBlock => exact .inr ⟨rfl, Nat.zero_lt_one⟩
  | conditional hblock => exact hsame (appliesTo_block.onward hblock) Nat.zero_lt_one
  | returned hblock hconditional =>
      have honward := (appliesTo_block.onward hblock).trans
        (appliesTo_conditional.onward hconditional)
      exact hsame honward Nat.zero_lt_one
  | directive hblock hconditional hreturned =>
      have honward := (appliesTo_block.onward hblock).trans
        (appliesTo_conditional.onward hconditional)
      exact hsame (honward.trans (appliesTo_returned.onward hreturned)) Nat.zero_lt_one
  | condition hkeyword => exact .inl (hif hkeyword)
  | branch hkeyword hcondition =>
      exact .inl ((hif hkeyword).trans_leadsTo (forward_expression.leadsTo hcondition))
  | alternative hkeyword hcondition hyes helse =>
      have hpast := (hif hkeyword).trans_leadsTo (forward_expression.leadsTo hcondition)
      have hpast := hpast.trans_leadsTo (forward_block.leadsTo hyes)
      exact .inl (hpast.trans_leadsTo
        (precedes_of_lexeme (Lexeme.consumes_keyword "else") helse).leadsTo)
  | value hmarker => exact .inl (precedes_of_token hmarker)
  | statement hleft hrounds hmore =>
      have hrounds := onward_of_rounds (forward_continues _) forward_statement advances_statement
        (forward_pure ()) hrounds
      have hpast := (precedes_of_token hleft).trans_leadsTo hrounds.leadsTo
      exact .inl (hpast.trans_leadsTo ((forward_continues _).leadsTo hmore))
  | operand hsteps =>
      have hsteps := Cursor.onward_of_reflTransGen (fun _ _ hstep => hstep.precedes) hsteps
      exact hsame hsteps (Nat.lt_succ_self 1)
  | stringLiteral hnumber => exact hsame (appliesTo_numeral.onward hnumber) Nat.zero_lt_one

end Descent

section Calls

variable {rules : ∀ r : RuleName, Rule r.Tree} {c : Cursor}

theorem Rule.items_agree {α : Type} {more : Rule Bool} {item item' : Rule α} (e : Expectation)
    (h : ∀ d d', ReflTransGen (Round more item (pure ())) c d → more d = (.matched true, d') →
      item d' = item' d')
    (items : List α) : fix (itemsStep more item e) items c = fix (itemsStep more item' e) items c := by
  let P : List α → Cursor → Prop := fun _ => ReflTransGen (Round more item (pure ())) c
  refine fix_agree (P := P) (fun f f' hf items d hd => ?_) .refl
  refine bind_agree rfl fun goesOn d₁ hmore => ?_
  cases goesOn with
  | false => rfl
  | true =>
      refine bind_agree (required_agree (h d d₁ hd hmore) _) fun next d₂ hnext => ?_
      exact hf _ d₂ (hd.tail ⟨d₁, next, d₂, (), hmore, required_eq_matched.mp hnext, rfl⟩)

theorem Rule.typesOf_agree {item : Rule TypeExpr}
    (h : ∀ d d', ReflTransGen (Round (continues ")") type (token ",")) c d →
      continues ")" d = (.matched true, d') → type d' = item d')
    (types : List TypeExpr) : typesOf type types c = typesOf item types c := by
  let P : List TypeExpr → Cursor → Prop := fun _ =>
    ReflTransGen (Round (continues ")") type (token ",")) c
  refine fix_agree (P := P) (fun f f' hf types d hd => ?_) .refl
  refine bind_agree rfl fun more d₁ hmore => ?_
  cases more with
  | false => rfl
  | true =>
      refine bind_agree (required_agree (h d d₁ hd hmore) _) fun next d₂ hnext => ?_
      refine bind_agree rfl fun comma d₃ hcomma => ?_
      cases comma with
      | none => rfl
      | some comma =>
          exact hf _ d₃ (hd.tail ⟨d₁, next, d₂, comma, hmore, required_eq_matched.mp hnext,
            optional_eq_some.mp hcomma⟩)

/-- What a rule does depends on other rules only where it calls them. -/
theorem RuleName.body_agree (r : RuleName)
    (h : ∀ s d, Calls (r, c) (s, d) → s.tree d = rules s d) : r.tree c = r.body rules c := by
  rw [tree_eq_body]
  cases r with
  | program =>
      exact map_agree (items_agree _
        (fun d d' hrounds hmore => h .declaration d' (.declaration hrounds hmore)) []) _
  | declaration =>
      refine bind_agree rfl fun name c₁ hname => bind_agree rfl fun opens c₂ hopens => ?_
      cases opens with
      | false => rfl
      | true =>
          have hsignature := h .signature c₂ (.definitionSignature hname hopens)
          refine bind_agree (required_agree hsignature _) fun signature c₃ hs => ?_
          have hblock := h .block c₃ (.definitionBody hname hopens (required_eq_matched.mp hs))
          exact bind_agree (required_agree hblock _) fun _ _ _ => rfl
  | type => exact orElse_agree (map_agree (h .signature c .functionType) _) fun _ _ => rfl
  | signature =>
      refine bind_agree rfl fun left c₁ hleft => bind_agree (typesOf_agree
        (fun d d' hrounds hmore => h .type d' (.argument hleft hrounds hmore)) []) ?_
      refine fun args c₂ hargs => bind_agree rfl fun right c₃ hright => ?_
      exact bind_agree (optional_agree (h .type c₃ (.result hleft hargs hright))) fun _ _ _ => rfl
  | statement =>
      refine orElse_agree (map_agree (h .block c .innerBlock) _) fun c₁ hblock => ?_
      have hblock := map_eq_noMatch.mp hblock
      refine orElse_agree (h .conditional c₁ (.conditional hblock)) fun c₂ hconditional => ?_
      refine orElse_agree (h .returned c₂ (.returned hblock hconditional)) fun c₃ hreturned => ?_
      exact h .directive c₃ (.directive hblock hconditional hreturned)
  | conditional =>
      refine bind_agree rfl fun keyword c₁ hkeyword => ?_
      refine bind_agree (required_agree (h .expression c₁ (.condition hkeyword)) _) ?_
      intro condition c₂ hcondition
      have hcondition := required_eq_matched.mp hcondition
      refine bind_agree (required_agree (h .block c₂ (.branch hkeyword hcondition)) _) ?_
      intro yes c₃ hyes
      have hyes := required_eq_matched.mp hyes
      refine bind_agree rfl fun other c₄ hother => ?_
      cases other with
      | none => rfl
      | some other =>
          have hno := h .block c₄
            (.alternative hkeyword hcondition hyes (optional_eq_some.mp hother))
          exact bind_agree (required_agree hno _) fun _ _ _ => rfl
  | returned =>
      refine bind_agree rfl fun marker c₁ hmarker => ?_
      exact bind_agree (required_agree (h .expression c₁ (.value hmarker)) _) fun _ _ _ => rfl
  | directive => rfl
  | block =>
      refine bind_agree rfl fun left c₁ hleft => bind_agree (items_agree _
        (fun d d' hrounds hmore => h .statement d' (.statement hleft hrounds hmore)) []) ?_
      exact fun _ _ _ => rfl
  | expression =>
      exact climb_agree fun d hd => h .primary d (.operand (operandSteps_of_levelCalls hd))
  | primary =>
      refine orElse_agree rfl fun c₁ hnumber => ?_
      have hnumber := map_eq_noMatch.mp hnumber
      exact orElse_agree (map_agree (h .stringLiteral c₁ (.stringLiteral hnumber)) _)
        fun _ _ => rfl
  | stringLiteral => rfl

end Calls

namespace RuleName

theorem descends_calls : Descends Calls rank :=
  descends_of_rank fun _ _ _ _ hcall => hcall.descends

/-- The rules are the one solution of their equations. -/
theorem eq_tree_iff (rules : ∀ r : RuleName, Rule r.Tree) :
    (∀ r, rules r = r.body rules) ↔ rules = tree := by
  constructor
  · intro h
    funext r c
    have hagree : ∀ call : RuleName × Cursor, call.1.tree call.2 = rules call.1 call.2 := by
      intro call
      induction call using descends_calls.wellFounded.induction with
      | _ call ih =>
          rw [h]
          exact body_agree call.1 fun s d hcall => ih (s, d) hcall
    exact (hagree (r, c)).symm
  · rintro rfl r
    exact tree_eq_body r

end RuleName

end KestrelCompiler
