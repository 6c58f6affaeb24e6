import KestrelCompiler.Grammar
import KestrelCompiler.Proofs.Reading.Progress

/-!
The rules of the grammar move forward, and each step that a rule takes to call itself is guarded, so
that every rule satisfies its own equation.
-/

namespace KestrelCompiler

namespace Lexeme

theorem consumes_identifier : identifier.Consumes :=
  consumes_run isIdentChar

theorem consumes_numeral : numeral.Consumes := by
  intro c span h
  rw [numeral] at h
  split at h
  · exact consumes_run isNumberChar c span h
  · cases h

theorem consumes_directiveName : directiveName.Consumes :=
  consumes_filter consumes_identifier _

theorem consumes_keyword (text : String) : (keyword text).Consumes :=
  consumes_filter (consumes_literal text) _

end Lexeme

namespace StringLiteral

theorem le_stop_of_readBody {state : State} {read : List Char} {decoded : Bool} {l : Location}
    {text : List Char} {body : Body} (h : readBody state read decoded l text = .ok body) :
    l.offset ≤ body.stop.offset := by
  fun_induction readBody state read decoded l text
  case case2 =>
      obtain rfl := Except.ok.inj h
      exact Int.le_refl _
  case case3 ih | case5 ih | case6 ih | case7 ih | case10 ih | case12 ih | case16 ih =>
      have := ih h
      simp only [Location.advance] at this
      omega
  all_goals cases h

end StringLiteral

namespace Rule

theorem stringLiteral_cases (c : Cursor) :
    (∃ span body, Lexeme.literal "\"" c.skipBlank = some span ∧
      StringLiteral.readBody .plain [] false span.stop
        (StringLiteral.textAt c.skipBlank span.stop) = .ok body ∧
      stringLiteral c = (.matched ⟨⟨c.skipBlank.location, body.stop.advance '"'⟩,
        String.ofList body.text, body.decoded⟩, c.moveTo (body.stop.advance '"'))) ∨
    (∀ t, (stringLiteral c).1 ≠ .matched t) ∧ (stringLiteral c).2 = c.skipBlank := by
  simp only [stringLiteral]
  split
  · next span hspan =>
      split
      · next body hbody => exact .inl ⟨span, body, hspan, hbody, rfl⟩
      · exact .inr ⟨fun _ => by simp, rfl⟩
  · exact .inr ⟨fun _ => by simp, rfl⟩

theorem offset_lt_of_stringLiteral {c : Cursor} {span : Span} {body : StringLiteral.Body}
    (hspan : Lexeme.literal "\"" c.skipBlank = some span)
    (hbody : StringLiteral.readBody .plain [] false span.stop
      (StringLiteral.textAt c.skipBlank span.stop) = .ok body) :
    c.location.offset < c.source.length ∧
      c.location.offset < (body.stop.advance '"').offset := by
  have hskip := offset_le_skipBlank c
  obtain ⟨hlt, hstop⟩ := Lexeme.consumes_literal _ _ _ hspan
  have hread := StringLiteral.le_stop_of_readBody hbody
  change c.skipBlank.location.offset < c.source.length at hlt
  simp only [Location.advance]
  omega

theorem forward_stringLiteral : Forward stringLiteral := by
  intro c
  rcases stringLiteral_cases c with ⟨span, body, hspan, hbody, hmatch⟩ | ⟨-, hother⟩
  · rw [hmatch]
    exact ⟨rfl, Int.le_of_lt (offset_lt_of_stringLiteral hspan hbody).2⟩
  · rw [hother]
    exact ⟨rfl, offset_le_skipBlank c⟩

theorem advances_stringLiteral : Advances stringLiteral := by
  intro c t c' h
  rcases stringLiteral_cases c with ⟨span, body, hspan, hbody, hmatch⟩ | ⟨hother, -⟩
  · rw [hmatch] at h
    cases h
    obtain ⟨hlt, hstop⟩ := offset_lt_of_stringLiteral hspan hbody
    change (c.source.length - (body.stop.advance '"').offset).toNat <
      (c.source.length - c.location.offset).toNat
    omega
  · exact absurd (congrArg Prod.fst h) (hother t)

theorem forward_token (text : String) : Forward (token text) :=
  forward_lexeme (Lexeme.consumes_literal text)

theorem advances_token (text : String) : Advances (token text) :=
  advances_lexeme (Lexeme.consumes_literal text)

theorem precedes_of_token {text : String} {c d : Cursor} {t : Token}
    (h : token text c = (.matched t, d)) : c.Precedes d :=
  precedes_of_lexeme (Lexeme.consumes_literal text) h

theorem forward_expect (text : String) : Forward (expect text) :=
  forward_required (forward_token text) _

theorem forward_continues (closing : String) : Forward (continues closing) :=
  forward_bind forward_hasMore fun _ => forward_bind (forward_sees _) fun _ => forward_pure _

section Items

variable {α : Type} {more : Rule Bool} {item : Rule α}

/-- While there is more, an item is read and put at the end. -/
def itemsStep (more : Rule Bool) (item : Rule α) (e : Expectation)
    (again : List α → Rule (List α)) (items : List α) : Rule (List α) := do
  if ← more then
    let next ← required item e
    again (items ++ [next])
  else pure items

theorem loops_itemsStep (hmore : Forward more) (hitem : Forward item) (hadvances : Advances item)
    (e : Expectation) : Loops (itemsStep more item e) := by
  intro items c
  refine turns_bind (.refl c) hmore fun goesOn c₁ _ hc₁ => ?_
  cases goesOn with
  | false => exact turns_pure hc₁ items
  | true =>
      refine turns_bind hc₁ (forward_required hitem _) fun next c₂ hnext _ => ?_
      exact turns_again hc₁ (hadvances.precedes hitem (required_eq_matched.mp hnext)) _

end Items

theorem loops_starsStep : Loops starsStep := by
  intro inner c
  refine turns_bind (.refl c) (forward_optional (forward_token "*")) fun star d hstar hd => ?_
  cases star with
  | none => exact turns_pure hd inner
  | some star =>
      exact turns_again (.refl c) (precedes_of_token (optional_eq_some.mp hstar))
        (TypeExpr.pointer inner star)

theorem stars_eq (inner : TypeExpr) : stars inner = starsStep stars inner :=
  loops_starsStep.fix_eq inner

theorem forward_stars (inner : TypeExpr) : Forward (stars inner) :=
  loops_starsStep.forward_fix inner

section Types

variable {type type' : Rule TypeExpr}

theorem loops_typesStep (htype : Forward type) : Loops (typesStep type) := by
  intro types c
  refine turns_bind (.refl c) (forward_continues ")") fun more c₁ _ hc₁ => ?_
  cases more with
  | false => exact turns_pure hc₁ types
  | true =>
      refine turns_bind hc₁ (forward_required htype _) fun next c₂ _ hc₂ => ?_
      refine turns_bind hc₂ (forward_optional (forward_token ",")) fun comma c₃ hcomma hc₃ => ?_
      cases comma with
      | none => exact turns_pure hc₃ (types ++ [next])
      | some _ => exact turns_again hc₂ (precedes_of_token (optional_eq_some.mp hcomma)) _

theorem forward_typesOf (htype : Forward type) (types : List TypeExpr) :
    Forward (typesOf type types) :=
  (loops_typesStep htype).forward_fix types

theorem typesOf_eq (htype : Forward type) (types : List TypeExpr) :
    typesOf type types = typesStep type (typesOf type) types :=
  (loops_typesStep htype).fix_eq types

theorem AgreeBelow.typesOf {n : Nat} (h : AgreeBelow n type type') (htype : Forward type)
    (types : List TypeExpr) : AgreeBelow n (typesOf type types) (typesOf type' types) := by
  refine AgreeBelow.fix (fun f g hfg types => ?_) types
  refine (AgreeBelow.refl _ _).bind (forward_continues ")") fun more => ?_
  refine .ite ((h.required _).bind (forward_required htype _) fun next => ?_) (.refl _ _)
  refine (AgreeBelow.refl _ _).bind (forward_optional (forward_token ",")) fun comma => ?_
  cases comma with
  | none => exact .refl _ _
  | some _ => exact hfg _

theorem forward_signatureOf (htype : Forward type) : Forward (signatureOf type) :=
  forward_bind (forward_token "(") fun _ => forward_bind (forward_typesOf htype []) fun _ =>
    forward_bind (forward_expect ")") fun _ => forward_bind (forward_optional htype) fun _ =>
      forward_pure _

theorem forward_namedType : Forward namedType :=
  forward_bind (forward_lexeme Lexeme.consumes_identifier) fun _ => forward_stars _

theorem forward_typeOf (htype : Forward type) : Forward (typeOf type) :=
  forward_orElse (forward_map (forward_signatureOf htype) _) forward_namedType

theorem AgreeBelow.signatureOf {n : Nat} (h : AgreeBelow n type type') (htype : Forward type) :
    AgreeBelow (n + 1) (signatureOf type) (signatureOf type') := by
  refine (AgreeBelow.refl _ _).bind_advance (advances_token "(") fun left => ?_
  refine (h.typesOf htype []).bind (forward_typesOf htype []) fun args => ?_
  refine (AgreeBelow.refl _ _).bind (forward_expect ")") fun right => ?_
  exact (h.optional).bind (forward_optional htype) fun ret => .refl _ _

end Types

theorem guarded_typeStep : Guarded Forward typeStep where
  keeps _ hf s := forward_typeOf (hf s)
  agree _ _ _ hf _ h s :=
    ((h s).signatureOf (hf s)).map _ |>.orElse
      (forward_map (forward_signatureOf (hf s)) _) (.refl _ _)

theorem type_eq : type = typeOf type :=
  fix_eq local_forward guarded_typeStep ()

theorem forward_type : Forward type :=
  keeps_fix local_forward guarded_typeStep ()

theorem forward_primary : Forward primary :=
  forward_orElse (forward_map (forward_lexeme Lexeme.consumes_numeral) _)
    (forward_orElse (forward_map forward_stringLiteral _)
      (forward_map (forward_lexeme Lexeme.consumes_identifier) _))

theorem advances_primary : Advances primary := by
  refine advances_orElse (advances_map (advances_lexeme Lexeme.consumes_numeral) _)
    (forward_map (forward_lexeme Lexeme.consumes_numeral) _) ?_
  exact advances_orElse (advances_map advances_stringLiteral _)
    (forward_map forward_stringLiteral _)
    (advances_map (advances_lexeme Lexeme.consumes_identifier) _)

section Operators

variable {α κ : Type} {build : κ → α → Token → α → α} {operand : Rule α}

theorem forward_operator (operators : List (String × κ)) : Forward (operator operators) := by
  induction operators with
  | nil => exact forward_never
  | cons entry rest ih => exact forward_orElse (forward_map (forward_token _) _) ih

theorem advances_operator (operators : List (String × κ)) : Advances (operator operators) := by
  induction operators with
  | nil => exact fun _ _ _ h => nomatch h
  | cons entry rest ih =>
      exact advances_orElse (advances_map (advances_token _) _) (forward_map (forward_token _) _) ih

theorem loops_operandsStep (hoperand : Forward operand) (level : PrecedenceLevel κ) :
    Loops (operandsStep build operand level) := by
  intro left c
  refine turns_bind (.refl c) (forward_optional (forward_operator _)) fun op c₁ hop hc₁ => ?_
  cases op with
  | none => exact turns_pure hc₁ left
  | some op =>
      have hpast := (advances_operator _).precedes (forward_operator _) (optional_eq_some.mp hop)
      refine turns_bind hc₁ (forward_required hoperand _) fun right c₂ hright _ => ?_
      have hrest := (forward_required hoperand _).leadsTo hright
      exact turns_again (.refl c) (hpast.trans_leadsTo hrest) _

theorem operandsOf_eq (hoperand : Forward operand) (level : PrecedenceLevel κ) (left : α) :
    operandsOf build operand level left =
      operandsStep build operand level (operandsOf build operand level) left :=
  (loops_operandsStep hoperand level).fix_eq left

theorem forward_operandsOf (hoperand : Forward operand) (level : PrecedenceLevel κ) (left : α) :
    Forward (operandsOf build operand level left) :=
  (loops_operandsStep hoperand level).forward_fix left

theorem forward_climb (hoperand : Forward operand) (levels : List (PrecedenceLevel κ)) :
    Forward (climb build operand levels) := by
  induction levels with
  | nil => exact hoperand
  | cons level tighter ih => exact forward_bind ih fun first => forward_operandsOf ih level first

theorem advances_climb (hoperand : Forward operand) (hadvances : Advances operand)
    (levels : List (PrecedenceLevel κ)) : Advances (climb build operand levels) := by
  induction levels with
  | nil => exact hadvances
  | cons level tighter ih =>
      exact advances_bind ih fun first => forward_operandsOf (forward_climb hoperand tighter) level first

theorem forward_expression : Forward expression :=
  forward_climb forward_primary _

theorem advances_expression : Advances expression :=
  advances_climb forward_primary advances_primary _

end Operators

theorem loops_namesStep (name : String) : Loops (namesStep name) := by
  intro names c
  refine turns_bind (.refl c)
    (forward_required (forward_lexeme Lexeme.consumes_identifier) _) fun next c₁ _ hc₁ => ?_
  refine turns_bind hc₁ (forward_optional (forward_token ",")) fun comma c₂ hcomma hc₂ => ?_
  cases comma with
  | none => exact turns_pure hc₂ (names ++ [next])
  | some _ => exact turns_again hc₁ (precedes_of_token (optional_eq_some.mp hcomma)) _

theorem namesAfter_eq (name : String) (names : List Token) :
    namesAfter name names = namesStep name (namesAfter name) names :=
  (loops_namesStep name).fix_eq names

theorem forward_namesAfter (name : String) (names : List Token) :
    Forward (namesAfter name names) :=
  (loops_namesStep name).forward_fix names

theorem forward_directive : Forward directive :=
  forward_bind (forward_lexeme Lexeme.consumes_directiveName) fun _ =>
    forward_bind (forward_token "!") fun _ => forward_bind (forward_namesAfter _ []) fun _ =>
      forward_pure _

theorem advances_directive : Advances directive :=
  advances_bind (advances_lexeme Lexeme.consumes_directiveName) fun _ =>
    forward_bind (forward_token "!") fun _ => forward_bind (forward_namesAfter _ []) fun _ =>
      forward_pure _

theorem forward_returned : Forward returned :=
  forward_bind (forward_token ":") fun _ =>
    forward_bind (forward_required forward_expression _) fun _ => forward_pure _

theorem advances_returned : Advances returned :=
  advances_bind (advances_token ":") fun _ =>
    forward_bind (forward_required forward_expression _) fun _ => forward_pure _

section Blocks

variable {block block' : Rule Block} {statement statement' : Rule Stmt}

theorem forward_alternativeOf (hblock : Forward block) (keyword : Token) (condition : Expr)
    (yes : Block) : Forward (alternativeOf block keyword condition yes) := by
  refine forward_bind
    (forward_optional (forward_lexeme (Lexeme.consumes_keyword "else"))) fun other => ?_
  cases other with
  | none => exact forward_pure _
  | some _ => exact forward_bind (forward_required hblock _) fun no => forward_pure _

theorem forward_conditionalOf (hblock : Forward block) : Forward (conditionalOf block) :=
  forward_bind (forward_lexeme (Lexeme.consumes_keyword "if")) fun _ =>
    forward_bind (forward_required forward_expression _) fun _ =>
      forward_bind (forward_required hblock _) fun _ => forward_alternativeOf hblock _ _ _

theorem advances_conditionalOf (hblock : Forward block) : Advances (conditionalOf block) :=
  advances_bind (advances_lexeme (Lexeme.consumes_keyword "if")) fun _ =>
    forward_bind (forward_required forward_expression _) fun _ =>
      forward_bind (forward_required hblock _) fun _ => forward_alternativeOf hblock _ _ _

theorem forward_statementOf (hblock : Forward block) : Forward (statementOf block) :=
  forward_orElse (forward_map hblock _) (forward_orElse (forward_conditionalOf hblock)
    (forward_orElse forward_returned forward_directive))

theorem advances_statementOf (hblock : Forward block) (hadvances : Advances block) :
    Advances (statementOf block) :=
  advances_orElse (advances_map hadvances _) (forward_map hblock _)
    (advances_orElse (advances_conditionalOf hblock) (forward_conditionalOf hblock)
      (advances_orElse advances_returned forward_returned advances_directive))

theorem loops_statementsStep (hforward : Forward statement) (hadvances : Advances statement) :
    Loops (statementsStep statement) := by
  change Loops (itemsStep (continues "\x7d") statement .statement)
  exact loops_itemsStep (forward_continues _) hforward hadvances _

theorem statementsOf_eq (hforward : Forward statement) (hadvances : Advances statement)
    (items : List Stmt) :
    statementsOf statement items = statementsStep statement (statementsOf statement) items :=
  (loops_statementsStep hforward hadvances).fix_eq items

theorem forward_statementsOf (hforward : Forward statement) (hadvances : Advances statement)
    (items : List Stmt) : Forward (statementsOf statement items) :=
  (loops_statementsStep hforward hadvances).forward_fix items

theorem AgreeBelow.conditionalOf {n : Nat} (h : AgreeBelow n block block')
    (hblock : Forward block) :
    AgreeBelow (n + 1) (conditionalOf block) (conditionalOf block') := by
  refine (AgreeBelow.refl _ _).bind_advance
    (advances_lexeme (Lexeme.consumes_keyword "if")) fun keyword => ?_
  refine (AgreeBelow.refl _ _).bind (forward_required forward_expression _) fun condition => ?_
  refine (h.required _).bind (forward_required hblock _) fun yes => ?_
  refine (AgreeBelow.refl _ _).bind
    (forward_optional (forward_lexeme (Lexeme.consumes_keyword "else"))) fun other => ?_
  cases other with
  | none => exact .refl _ _
  | some _ => exact (h.required _).bind (forward_required hblock _) fun no => .refl _ _

theorem AgreeBelow.statementOf {n : Nat} (h : AgreeBelow n block block')
    (hblock : Forward block) : AgreeBelow n (statementOf block) (statementOf block') := by
  refine (h.map _).orElse (forward_map hblock _) ?_
  exact (h.conditionalOf hblock |>.mono (Nat.le_succ n)).orElse (forward_conditionalOf hblock)
    (.refl _ _)

theorem AgreeBelow.statementsOf {n : Nat} (h : AgreeBelow n statement statement')
    (hstatement : Forward statement) (items : List Stmt) :
    AgreeBelow n (statementsOf statement items) (statementsOf statement' items) := by
  refine AgreeBelow.fix (fun f g hfg items => ?_) items
  refine (AgreeBelow.refl _ _).bind (forward_continues _) fun more => .ite ?_ (.refl _ _)
  exact (h.required _).bind (forward_required hstatement _) fun next => hfg _

theorem forward_blockOf (hblock : Forward block ∧ Advances block) : Forward (blockOf block) :=
  forward_bind (forward_token _) fun _ => forward_bind
    (forward_statementsOf (forward_statementOf hblock.1) (advances_statementOf hblock.1 hblock.2) [])
    fun _ => forward_bind (forward_expect _) fun _ => forward_pure _

theorem advances_blockOf (hblock : Forward block ∧ Advances block) : Advances (blockOf block) :=
  advances_bind (advances_token _) fun _ => forward_bind
    (forward_statementsOf (forward_statementOf hblock.1) (advances_statementOf hblock.1 hblock.2) [])
    fun _ => forward_bind (forward_expect _) fun _ => forward_pure _

end Blocks

theorem guarded_blockStep :
    Guarded (fun r : Rule Block => Forward r ∧ Advances r) blockStep where
  keeps f hf s := ⟨forward_blockOf (hf s), advances_blockOf (hf s)⟩
  agree f g n hf _ h s := by
    have hforward := forward_statementOf (hf s).1
    have hadvances := advances_statementOf (hf s).1 (hf s).2
    refine (AgreeBelow.refl _ _).bind_advance (advances_token _) fun left => ?_
    refine (((h s).statementOf (hf s).1).statementsOf hforward []).bind
      (forward_statementsOf hforward hadvances []) fun items => ?_
    exact (AgreeBelow.refl _ _).bind (forward_expect _) fun right => .refl _ _

theorem block_eq : block = blockOf block :=
  fix_eq local_advances guarded_blockStep ()

theorem forward_block : Forward block :=
  (keeps_fix local_advances guarded_blockStep ()).1

theorem advances_block : Advances block :=
  (keeps_fix local_advances guarded_blockStep ()).2

theorem forward_statement : Forward statement :=
  forward_statementOf forward_block

theorem advances_statement : Advances statement :=
  advances_statementOf forward_block advances_block

theorem forward_signature : Forward signature :=
  forward_signatureOf forward_type

theorem forward_definitionOf (name : Token) : Forward (definitionOf name) :=
  forward_bind (forward_required forward_signature _) fun _ =>
    forward_bind (forward_required forward_block _) fun _ => forward_pure _

theorem forward_declaration : Forward declaration :=
  forward_bind (forward_lexeme Lexeme.consumes_identifier) fun name =>
    forward_bind (forward_sees _) fun _ => forward_ite (forward_definitionOf name) (forward_fail _)

theorem advances_declaration : Advances declaration :=
  advances_bind (advances_lexeme Lexeme.consumes_identifier) fun name =>
    forward_bind (forward_sees _) fun _ => forward_ite (forward_definitionOf name) (forward_fail _)

theorem loops_declarationsStep : Loops declarationsStep := by
  change Loops (itemsStep hasMore declaration .declaration)
  exact loops_itemsStep forward_hasMore forward_declaration advances_declaration _

theorem declarations_eq (decls : List FunctionDecl) :
    declarations decls = declarationsStep declarations decls :=
  loops_declarationsStep.fix_eq decls

theorem forward_declarations (decls : List FunctionDecl) : Forward (declarations decls) :=
  loops_declarationsStep.forward_fix decls

end Rule

end KestrelCompiler
