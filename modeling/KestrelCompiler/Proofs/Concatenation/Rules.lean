import KestrelCompiler.Proofs.Concatenation.Parallel
import KestrelCompiler.Proofs.Grammar.Shape

/-!
The rules of the grammar behind another text: each reads the same trees there, with all their points
moved.
-/

namespace KestrelCompiler.Rule

variable {before : List Char}

theorem parallel_token {text : String} (h : text.toList ≠ []) :
    Parallel before (Token.behind before) (token text) (token text) :=
  parallel_lexeme (Lexeme.finds_literal h)

theorem parallel_expect {text : String} (h : text.toList ≠ []) :
    Parallel before (Token.behind before) (expect text) (expect text) :=
  parallel_required (parallel_token h) _

theorem parallel_identifier :
    Parallel before (Token.behind before) (lexeme .identifier) (lexeme .identifier) :=
  parallel_lexeme Lexeme.finds_identifier

theorem parallel_keyword {text : String} (h : text.toList ≠ []) :
    Parallel before (Token.behind before) (lexeme (.keyword text)) (lexeme (.keyword text)) :=
  parallel_lexeme (Lexeme.finds_keyword h)

theorem parallel_continues {closing : String} (h : closing.toList ≠ []) :
    Parallel before id (continues closing) (continues closing) :=
  parallel_bind parallel_hasMore fun _ =>
    parallel_bind (parallel_sees (Lexeme.finds_literal h)) fun _ => parallel_pure _

theorem parallel_stars (inner : TypeExpr) :
    Parallel before (TypeExpr.behind before) (stars inner) (stars (inner.behind before)) := by
  refine parallel_fix (TypeExpr.behind before) (fun again again' hagain inner => ?_) inner
  refine parallel_bind (parallel_optional (parallel_token (by decide))) fun star => ?_
  cases star with
  | none => exact parallel_pure inner
  | some star => exact hagain (.pointer inner star)

section Types

variable {type type' : Rule TypeExpr}

theorem parallel_typesOf (htype : Parallel before (TypeExpr.behind before) type type')
    (types : List TypeExpr) :
    Parallel before (List.map (TypeExpr.behind before)) (typesOf type types)
      (typesOf type' (types.map (TypeExpr.behind before))) := by
  refine parallel_fix (List.map (TypeExpr.behind before))
    (fun again again' hagain types => ?_) types
  refine parallel_bind (parallel_continues (by decide)) fun more => ?_
  refine parallel_ite (parallel_bind (parallel_required htype _) fun next => ?_)
    (parallel_pure types)
  have hnext : (types ++ [next]).map (TypeExpr.behind before) =
      types.map (TypeExpr.behind before) ++ [next.behind before] := List.map_append
  refine parallel_bind (parallel_optional (parallel_token (by decide))) fun comma => ?_
  cases comma with
  | none => exact hnext ▸ parallel_pure (types ++ [next])
  | some _ => exact hnext ▸ hagain (types ++ [next])

theorem parallel_signatureOf (htype : Parallel before (TypeExpr.behind before) type type') :
    Parallel before (Signature.behind before) (signatureOf type) (signatureOf type') := by
  refine parallel_bind (parallel_token (by decide)) fun left => ?_
  refine parallel_bind (parallel_typesOf htype []) fun args => ?_
  refine parallel_bind (parallel_expect (by decide)) fun right => ?_
  exact parallel_bind (parallel_optional htype) fun ret =>
    parallel_pure (Signature.mk args ret left right)

theorem parallel_typeOf (htype : Parallel before (TypeExpr.behind before) type type') :
    Parallel before (TypeExpr.behind before) (typeOf type) (typeOf type') := by
  refine parallel_orElse (parallel_map (parallel_signatureOf htype) fun s => ?_) ?_
  · exact s.toType_mapTokens _
  · exact parallel_bind parallel_identifier fun name => parallel_stars (.named name)

end Types

theorem parallel_type : Parallel before (TypeExpr.behind before) type type := by
  change Parallel before _ (fix typeStep ()) (fix typeStep (id ()))
  refine parallel_fix id ?_ ()
  exact fun _ _ hagain s => parallel_typeOf (hagain s)

theorem parallel_signature : Parallel before (Signature.behind before) signature signature :=
  parallel_signatureOf parallel_type

theorem parallel_primary : Parallel before (Expr.behind before) primary primary := by
  refine parallel_orElse (parallel_map (parallel_lexeme Lexeme.finds_numeral) fun _ => rfl) ?_
  refine parallel_orElse (parallel_map parallel_stringLiteral fun _ => rfl) ?_
  exact parallel_map parallel_identifier fun _ => rfl

section Operators

variable {κ : Type} {operators : List (String × κ)}

theorem parallel_operator (h : ∀ entry ∈ operators, entry.1.toList ≠ []) :
    Parallel before (Prod.map (Token.behind before) id) (operator operators)
      (operator operators) := by
  induction operators with
  | nil => exact parallel_never
  | cons entry rest ih =>
      refine parallel_orElse (parallel_map (parallel_token (h entry List.mem_cons_self)) ?_)
        (ih fun e he => h e (List.mem_cons_of_mem entry he))
      exact fun _ => rfl

variable {operand : Rule Expr} {level : PrecedenceLevel Operation}

theorem parallel_operandsOf (hoperand : Parallel before (Expr.behind before) operand operand)
    (h : ∀ entry ∈ level.operators, entry.1.toList ≠ []) (left : Expr) :
    Parallel before (Expr.behind before) (operandsOf .binary operand level left)
      (operandsOf .binary operand level (left.behind before)) := by
  refine parallel_fix (Expr.behind before) (fun again again' hagain left => ?_) left
  refine parallel_bind (parallel_optional (parallel_operator h)) fun op => ?_
  cases op with
  | none => exact parallel_pure left
  | some op =>
      refine parallel_bind (parallel_required hoperand _) fun right => ?_
      exact hagain (.binary op.2 left op.1 right)

theorem parallel_climb (hoperand : Parallel before (Expr.behind before) operand operand)
    {levels : List (PrecedenceLevel Operation)}
    (h : ∀ level ∈ levels, ∀ entry ∈ level.operators, entry.1.toList ≠ []) :
    Parallel before (Expr.behind before) (climb .binary operand levels)
      (climb .binary operand levels) := by
  induction levels with
  | nil => exact hoperand
  | cons level tighter ih =>
      have htighter := ih fun l hl => h l (List.mem_cons_of_mem level hl)
      exact parallel_bind htighter fun first =>
        parallel_operandsOf htighter (h level List.mem_cons_self) first

theorem parallel_expression : Parallel before (Expr.behind before) expression expression :=
  parallel_climb parallel_primary (by decide)

end Operators

theorem parallel_namesAfter (name : String) (names : List Token) :
    Parallel before (List.map (Token.behind before)) (namesAfter name names)
      (namesAfter name (names.map (Token.behind before))) := by
  refine parallel_fix (List.map (Token.behind before)) (fun again again' hagain names => ?_) names
  refine parallel_bind (parallel_required parallel_identifier _) fun next => ?_
  have hnext : (names ++ [next]).map (Token.behind before) =
      names.map (Token.behind before) ++ [next.behind before] := List.map_append
  refine parallel_bind (parallel_optional (parallel_token (by decide))) fun comma => ?_
  cases comma with
  | none => exact hnext ▸ parallel_pure (names ++ [next])
  | some _ => exact hnext ▸ hagain (names ++ [next])

theorem parallel_directive : Parallel before (Stmt.behind before) directive directive := by
  refine parallel_bind (parallel_lexeme Lexeme.finds_directiveName) fun name => ?_
  refine parallel_bind (parallel_token (by decide)) fun bang => ?_
  exact parallel_bind (parallel_namesAfter name.text []) fun args =>
    parallel_pure (Stmt.directive name bang args)

theorem parallel_returned : Parallel before (Stmt.behind before) returned returned := by
  refine parallel_bind (parallel_token (by decide)) fun marker => ?_
  exact parallel_bind (parallel_required parallel_expression _) fun value =>
    parallel_pure (Stmt.ret marker value)

section Blocks

variable {block block' : Rule Block} {statement statement' : Rule Stmt}

theorem parallel_alternativeOf (hblock : Parallel before (Block.behind before) block block')
    (keyword : Token) (condition : Expr) (yes : Block) :
    Parallel before (Stmt.behind before) (alternativeOf block keyword condition yes)
      (alternativeOf block' (keyword.behind before) (condition.behind before)
        (yes.behind before)) := by
  refine parallel_bind (parallel_optional (parallel_keyword (by decide))) fun other => ?_
  cases other with
  | none => exact parallel_pure (Stmt.ifThen keyword condition yes)
  | some _ =>
      exact parallel_bind (parallel_required hblock _) fun no =>
        parallel_pure (Stmt.ifElse keyword condition yes no)

theorem parallel_conditionalOf (hblock : Parallel before (Block.behind before) block block') :
    Parallel before (Stmt.behind before) (conditionalOf block) (conditionalOf block') := by
  refine parallel_bind (parallel_keyword (by decide)) fun keyword => ?_
  refine parallel_bind (parallel_required parallel_expression _) fun condition => ?_
  exact parallel_bind (parallel_required hblock _) fun yes =>
    parallel_alternativeOf hblock keyword condition yes

theorem parallel_statementOf (hblock : Parallel before (Block.behind before) block block') :
    Parallel before (Stmt.behind before) (statementOf block) (statementOf block') := by
  refine parallel_orElse (parallel_map hblock fun _ => rfl) ?_
  refine parallel_orElse (parallel_conditionalOf hblock) ?_
  exact parallel_orElse parallel_returned parallel_directive

theorem parallel_statementsOf
    (hstatement : Parallel before (Stmt.behind before) statement statement') (items : List Stmt) :
    Parallel before (List.map (Stmt.behind before)) (statementsOf statement items)
      (statementsOf statement' (items.map (Stmt.behind before))) := by
  refine parallel_fix (List.map (Stmt.behind before)) (fun again again' hagain items => ?_) items
  refine parallel_bind (parallel_continues (by decide)) fun more => ?_
  refine parallel_ite (parallel_bind (parallel_required hstatement _) fun next => ?_)
    (parallel_pure items)
  have hnext : (items ++ [next]).map (Stmt.behind before) =
      items.map (Stmt.behind before) ++ [next.behind before] := List.map_append
  exact hnext ▸ hagain (items ++ [next])

theorem parallel_blockOf (hblock : Parallel before (Block.behind before) block block') :
    Parallel before (Block.behind before) (blockOf block) (blockOf block') := by
  refine parallel_bind (parallel_token (by decide)) fun left => ?_
  refine parallel_bind (parallel_statementsOf (parallel_statementOf hblock) []) fun items => ?_
  refine parallel_bind (parallel_expect (by decide)) fun right => ?_
  have hblock : (Block.mk left items right).behind before =
      .mk (left.behind before) (items.map (Stmt.behind before)) (right.behind before) :=
    Block.mapTokens_mk _ left right items
  exact hblock ▸ parallel_pure (Block.mk left items right)

end Blocks

theorem parallel_block : Parallel before (Block.behind before) block block := by
  change Parallel before _ (fix blockStep ()) (fix blockStep (id ()))
  refine parallel_fix id ?_ ()
  exact fun _ _ hagain s => parallel_blockOf (hagain s)

theorem parallel_definitionOf (name : Token) :
    Parallel before (FunctionDecl.behind before) (definitionOf name)
      (definitionOf (name.behind before)) := by
  refine parallel_bind (parallel_required parallel_signature _) fun s => ?_
  exact parallel_bind (parallel_required parallel_block _) fun body =>
    parallel_pure (FunctionDecl.mk name s body)

theorem parallel_declaration :
    Parallel before (FunctionDecl.behind before) declaration declaration := by
  refine parallel_bind parallel_identifier fun name => ?_
  refine parallel_bind (parallel_sees (Lexeme.finds_literal (by decide))) fun _ => ?_
  exact parallel_ite (parallel_definitionOf name) (parallel_fail _)

/-- The declarations read so far may be any: the ones that follow are added to them. -/
theorem parallel_declarations (first decls : List FunctionDecl) :
    Parallel before (fun decls => first ++ decls.map (FunctionDecl.behind before))
      (declarations decls) (declarations (first ++ decls.map (FunctionDecl.behind before))) := by
  refine parallel_fix (fun decls => first ++ decls.map (FunctionDecl.behind before))
    (fun again again' hagain decls => ?_) decls
  refine parallel_bind parallel_hasMore fun more => ?_
  refine parallel_ite (parallel_bind (parallel_required parallel_declaration _) fun next => ?_)
    (parallel_pure decls)
  have hnext : first ++ (decls ++ [next]).map (FunctionDecl.behind before) =
      (first ++ decls.map (FunctionDecl.behind before)) ++ [next.behind before] := by
    rw [List.map_append, List.append_assoc]
    rfl
  exact hnext ▸ hagain (decls ++ [next])

end KestrelCompiler.Rule
