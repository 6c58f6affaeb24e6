import KestrelCompiler.Proofs.Tree.Placement

/-!
The rules of the grammar on the points of a source. Whatever a rule matches has its tokens in the
order in which they were read, at every depth of the tree, and whatever it fails with points into
the source.
-/

namespace KestrelCompiler

open KestrelCompiler.Part

/-- The tokens of a type, in the order of the source. -/
def TypeExpr.tokens (type : TypeExpr) : List Token :=
  (type.part .blank).tokens

def Signature.tokens (s : Signature) : List Token :=
  s.part.tokens

def Expr.tokens (e : Expr) : List Token :=
  e.part.tokens

def Block.tokens (b : Block) : List Token :=
  (b.part .blank).tokens

def Stmt.tokens (s : Stmt) : List Token :=
  s.part.tokens

def FunctionDecl.tokens (d : FunctionDecl) : List Token :=
  d.part.tokens

def Phrase.tokens (phrase : Phrase) : List Token :=
  phrase.part.tokens

section Tokens

/-- What stands in front of a type is none of its tokens. -/
theorem TypeExpr.tokens_part : ∀ (before : Separator) (type : TypeExpr),
    (type.part before).tokens = type.tokens
  | _, .named _ | _, .function _ none _ _ | _, .function _ (some _) _ _ => rfl
  | before, .pointer inner star => by
    simp only [tokens, part, tokens_node, tokensOf_cons]
    rw [TypeExpr.tokens_part before inner, tokens]

theorem TypeExpr.tokensOf_parts (before : Separator) (types : List TypeExpr) :
    tokensOf (TypeExpr.parts before types) = types.flatMap TypeExpr.tokens := by
  induction types generalizing before with
  | nil => rfl
  | cons type rest ih =>
      rw [TypeExpr.parts, tokensOf_cons, TypeExpr.tokens_part, ih, List.flatMap_cons]

theorem TypeExpr.tokens_pointer (inner : TypeExpr) (star : Token) :
    (TypeExpr.pointer inner star).tokens = inner.tokens ++ [star] :=
  tokensOf_cons _ _

theorem TypeExpr.tokens_function (args : List TypeExpr) (ret : Option TypeExpr)
    (left right : Token) : (TypeExpr.function args ret left right).tokens =
      left :: (args.flatMap TypeExpr.tokens ++ right :: ret.elim [] TypeExpr.tokens) := by
  cases ret <;>
    simp [tokens, part, TypeExpr.tokensOf_parts, Token.closing]

theorem Expr.tokens_binary (operation : Operation) (left : Expr) (op : Token) (right : Expr) :
    (Expr.binary operation left op right).tokens = left.tokens ++ op :: right.tokens := by
  simp [tokens, part, Token.part]

theorem Phrase.tokens_binary (operation : Option Operation) (left : Phrase) (op : Token)
    (right : Phrase) :
    (Phrase.binary operation left op right).tokens = left.tokens ++ op :: right.tokens := by
  simp [tokens, part, Token.part]

theorem Token.tokensOf_parts (before : Separator) (names : List Token) :
    tokensOf (Token.parts before names) = names := by
  induction names generalizing before with
  | nil => rfl
  | cons name rest ih => simp [parts, ih]

theorem Block.tokens_part (before : Separator) (b : Block) : (b.part before).tokens = b.tokens := by
  cases b
  rfl

theorem Stmt.tokensOf_parts (items : List Stmt) :
    tokensOf (Stmt.parts items) = items.flatMap Stmt.tokens := by
  induction items with
  | nil => rfl
  | cons item rest ih => rw [Stmt.parts, tokensOf_cons, ih, List.flatMap_cons, tokens]

theorem Block.tokens_mk (left right : Token) (items : List Stmt) :
    (Block.mk left items right).tokens = left :: (items.flatMap Stmt.tokens ++ [right]) := by
  simp [tokens, part, Token.part, Stmt.tokensOf_parts]

theorem Stmt.tokens_ifThen (keyword : Token) (condition : Expr) (yes : Block) :
    (Stmt.ifThen keyword condition yes).tokens = keyword :: (condition.tokens ++ yes.tokens) := by
  simp [tokens, part, Token.part, Expr.tokens, Block.tokens]

theorem Stmt.tokens_ifElse (keyword : Token) (condition : Expr) (yes no : Block) :
    (Stmt.ifElse keyword condition yes no).tokens =
      keyword :: (condition.tokens ++ (yes.tokens ++ no.tokens)) := by
  simp [tokens, part, Token.part, Expr.tokens, Block.tokens, Block.tokens_part .alternative]

theorem Stmt.tokens_ret (marker : Token) (value : Expr) :
    (Stmt.ret marker value).tokens = marker :: value.tokens := by
  simp [tokens, part, Token.part, Expr.tokens]

theorem Stmt.tokens_directive (name bang : Token) (args : List Token) :
    (Stmt.directive name bang args).tokens = name :: bang :: args := by
  simp [tokens, part, Token.part, Token.tokensOf_parts]

theorem FunctionDecl.tokens_mk (name : Token) (s : Signature) (body : Block) :
    (FunctionDecl.mk name s body).tokens = name :: (s.tokens ++ body.tokens) := by
  simp [tokens, part, Token.part, Signature.tokens, Block.tokens]

theorem Program.tokens_part (decls : List FunctionDecl) :
    (Program.mk decls).part.tokens = decls.flatMap FunctionDecl.tokens := by
  induction decls with
  | nil => rfl
  | cons d rest ih =>
      rw [part, tokens_node] at ih ⊢
      rw [List.map_cons, tokensOf_cons, ih, List.flatMap_cons, FunctionDecl.tokens]

end Tokens

namespace Rule

variable {source : List Char} {before : List Token}

theorem adds_identifier : Adds source before (lexeme .identifier) fun t => before ++ [t] :=
  adds_lexeme Lexeme.finds_identifier.within

theorem adds_continues (closing : String) :
    Adds source before (continues closing) fun _ => before :=
  adds_bind adds_hasMore fun _ => adds_bind (adds_sees _) fun _ => adds_pure rfl

theorem adds_stars (inner : TypeExpr) :
    Adds source inner.tokens (stars inner) TypeExpr.tokens := by
  refine adds_fix TypeExpr.tokens (fun f h inner => ?_) inner
  refine adds_bind (adds_optional (adds_token "*")) fun star => ?_
  cases star with
  | none => exact adds_pure rfl
  | some star =>
      have hmore := h (.pointer inner star)
      rwa [TypeExpr.tokens_pointer] at hmore

section Types

variable {type : Rule TypeExpr}

theorem adds_typesOf (htype : Adds source [] type TypeExpr.tokens) (types : List TypeExpr) :
    Adds source (types.flatMap TypeExpr.tokens) (typesOf type types)
      fun all => all.flatMap TypeExpr.tokens := by
  refine adds_fix (fun types => types.flatMap TypeExpr.tokens) (fun f h types => ?_) types
  refine adds_bind (adds_continues ")") fun more => adds_ite ?_ (adds_pure rfl)
  refine adds_bind (adds_required (htype.after _) _) fun next => ?_
  have hnext : (types ++ [next]).flatMap TypeExpr.tokens =
      types.flatMap TypeExpr.tokens ++ next.tokens := by
    simp
  rw [← hnext]
  refine adds_bind (adds_optional_lexeme (Lexeme.within_literal ",")) fun comma => ?_
  cases comma with
  | none => exact adds_pure rfl
  | some _ => exact h (types ++ [next])

theorem adds_signatureOf (htype : Adds source [] type TypeExpr.tokens) :
    Adds source [] (signatureOf type) Signature.tokens := by
  refine adds_bind (adds_token "(") fun left => ?_
  refine adds_bind ((adds_typesOf htype []).after _) fun args => ?_
  refine adds_bind (adds_expect ")") fun right => ?_
  refine adds_bind (adds_optional (htype.after _)) fun ret => adds_pure ?_
  refine (TypeExpr.tokens_function args ret left right).trans ?_
  cases ret with
  | none => rfl
  | some ret => simp

end Types

theorem adds_type : Adds source [] type TypeExpr.tokens := by
  refine adds_fix (fun _ => []) (fun f h s => ?_) ()
  refine adds_orElse (adds_map (adds_signatureOf (h s)) fun _ => rfl) ?_
  exact adds_bind adds_identifier fun name => adds_stars (.named name)

theorem adds_signature : Adds source [] signature Signature.tokens :=
  adds_signatureOf adds_type

theorem adds_primary : Adds source [] primary Expr.tokens := by
  refine adds_orElse (adds_map (adds_lexeme Lexeme.finds_numeral.within) fun _ => rfl) ?_
  exact adds_orElse (adds_map adds_stringLiteral fun _ => rfl)
    (adds_map adds_identifier fun _ => rfl)

section Operators

variable {α κ : Type} {build : κ → α → Token → α → α} {operand : Rule α} {tokens : α → List Token}

theorem adds_operator (operators : List (String × κ)) :
    Adds source before (operator operators) fun op => before ++ [op.1] := by
  induction operators with
  | nil => exact adds_never
  | cons entry rest ih => exact adds_orElse (adds_map (adds_token entry.1) fun _ => rfl) ih

theorem adds_operandsOf (hoperand : Adds source [] operand tokens)
    (hbuild : ∀ kind left op right,
      tokens (build kind left op right) = tokens left ++ op :: tokens right)
    (level : PrecedenceLevel κ) (left : α) :
    Adds source (tokens left) (operandsOf build operand level left) tokens := by
  refine adds_fix tokens (fun f h left => ?_) left
  refine adds_bind (adds_optional (adds_operator level.operators)) fun op => ?_
  cases op with
  | none => exact adds_pure rfl
  | some op =>
      refine adds_bind (adds_required (hoperand.after _) _) fun right => ?_
      have hmore := h (build op.2 left op.1 right)
      rw [hbuild] at hmore
      simpa using hmore

theorem adds_climb (hoperand : Adds source [] operand tokens)
    (hbuild : ∀ kind left op right,
      tokens (build kind left op right) = tokens left ++ op :: tokens right)
    (levels : List (PrecedenceLevel κ)) : Adds source [] (climb build operand levels) tokens := by
  induction levels with
  | nil => exact hoperand
  | cons level tighter ih => exact adds_bind ih fun first => adds_operandsOf ih hbuild level first

end Operators

theorem adds_expression : Adds source [] expression Expr.tokens :=
  adds_climb adds_primary Expr.tokens_binary _

theorem adds_namesAfter (name : String) (names : List Token) :
    Adds source names (namesAfter name names) id := by
  refine adds_fix id (fun f h names => ?_) names
  refine adds_bind (adds_required adds_identifier _) fun next => ?_
  refine adds_bind (adds_optional_lexeme (Lexeme.within_literal ",")) fun comma => ?_
  cases comma with
  | none => exact adds_pure rfl
  | some _ => exact h (names ++ [next])

theorem adds_directive : Adds source [] directive Stmt.tokens := by
  refine adds_bind (adds_lexeme Lexeme.finds_directiveName.within) fun name => ?_
  refine adds_bind (adds_token "!") fun bang => ?_
  refine adds_bind ((adds_namesAfter name.text []).after _) fun args => ?_
  exact adds_pure (Stmt.tokens_directive name bang args)

theorem adds_returned : Adds source [] returned Stmt.tokens := by
  refine adds_bind (adds_token ":") fun marker => ?_
  refine adds_bind (adds_required (adds_expression.after _) _) fun value => ?_
  exact adds_pure (Stmt.tokens_ret marker value)

section Blocks

variable {block : Rule Block} {statement : Rule Stmt}

theorem adds_alternativeOf (hblock : Adds source [] block Block.tokens) (keyword : Token)
    (condition : Expr) (yes : Block) :
    Adds source (keyword :: (condition.tokens ++ yes.tokens))
      (alternativeOf block keyword condition yes) Stmt.tokens := by
  refine adds_bind (adds_optional_lexeme (Lexeme.within_keyword "else")) fun other => ?_
  cases other with
  | none => exact adds_pure (Stmt.tokens_ifThen keyword condition yes)
  | some _ =>
      refine adds_bind (adds_required (hblock.after _) _) fun no => adds_pure ?_
      rw [Stmt.tokens_ifElse, List.cons_append, List.append_assoc]

theorem adds_conditionalOf (hblock : Adds source [] block Block.tokens) :
    Adds source [] (conditionalOf block) Stmt.tokens := by
  refine adds_bind (adds_lexeme (Lexeme.within_keyword "if")) fun keyword => ?_
  refine adds_bind (adds_required (adds_expression.after _) _) fun condition => ?_
  refine adds_bind (adds_required (hblock.after _) _) fun yes => ?_
  simpa using adds_alternativeOf hblock keyword condition yes

theorem adds_statementOf (hblock : Adds source [] block Block.tokens) :
    Adds source [] (statementOf block) Stmt.tokens := by
  refine adds_orElse (adds_map hblock fun _ => rfl) ?_
  exact adds_orElse (adds_conditionalOf hblock) (adds_orElse adds_returned adds_directive)

theorem adds_statementsOf (hstatement : Adds source [] statement Stmt.tokens) (items : List Stmt) :
    Adds source (items.flatMap Stmt.tokens) (statementsOf statement items)
      fun all => all.flatMap Stmt.tokens := by
  refine adds_fix (fun items => items.flatMap Stmt.tokens) (fun f h items => ?_) items
  refine adds_bind (adds_continues _) fun more => adds_ite ?_ (adds_pure rfl)
  refine adds_bind (adds_required (hstatement.after _) _) fun next => ?_
  have hmore := h (items ++ [next])
  rwa [List.flatMap_append, List.flatMap_singleton] at hmore

end Blocks

theorem adds_block : Adds source [] block Block.tokens := by
  refine adds_fix (fun _ => []) (fun f h s => ?_) ()
  refine adds_bind (adds_token _) fun left => ?_
  refine adds_bind ((adds_statementsOf (adds_statementOf (h s)) []).after _) fun items => ?_
  refine adds_bind (adds_expect _) fun right => adds_pure ?_
  exact Block.tokens_mk left right items

theorem adds_declaration : Adds source [] declaration FunctionDecl.tokens := by
  refine adds_bind adds_identifier fun name => ?_
  refine adds_bind (adds_sees _) fun opens => adds_ite ?_ (adds_fail _)
  refine adds_bind (adds_required (adds_signature.after _) _) fun s => ?_
  refine adds_bind (adds_required (adds_block.after _) _) fun body => adds_pure ?_
  rw [FunctionDecl.tokens_mk]
  simp

theorem adds_declarations (decls : List FunctionDecl) :
    Adds source (decls.flatMap FunctionDecl.tokens) (declarations decls)
      fun all => all.flatMap FunctionDecl.tokens := by
  refine adds_fix (fun decls => decls.flatMap FunctionDecl.tokens)
    (fun f h decls => ?_) decls
  refine adds_bind adds_hasMore fun more => adds_ite ?_ (adds_pure rfl)
  refine adds_bind (adds_required (adds_declaration.after _) _) fun next => ?_
  have hmore := h (decls ++ [next])
  rwa [List.flatMap_append, List.flatMap_singleton] at hmore

theorem adds_program : Adds source [] program fun p => p.part.tokens :=
  adds_map (adds_declarations []) Program.tokens_part

/-- Every rule keeps its tokens in order. -/
theorem adds_rule (r : RuleName) : Adds source [] r.rule Phrase.tokens := by
  cases r with
  | program => exact adds_map adds_program fun _ => rfl
  | declaration => exact adds_map adds_declaration fun _ => rfl
  | type => exact adds_map adds_type fun _ => rfl
  | signature => exact adds_map adds_signature fun _ => rfl
  | statement => exact adds_map (adds_statementOf adds_block) fun _ => rfl
  | conditional => exact adds_map (adds_conditionalOf adds_block) fun _ => rfl
  | returned => exact adds_map adds_returned fun _ => rfl
  | directive => exact adds_map adds_directive fun _ => rfl
  | block => exact adds_map adds_block fun _ => rfl
  | expression => exact adds_map adds_expression fun _ => rfl
  | primary => exact adds_map adds_primary fun _ => rfl
  | stringLiteral => exact adds_map adds_stringLiteral fun _ => rfl

end Rule

end KestrelCompiler
