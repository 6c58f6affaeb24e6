import KestrelCompiler.Phrase
import KestrelCompiler.Proofs.Grammar.Progress

/-!
The rules by name never go back, and each of them but the one for whole programs reads something
when it matches.
-/

namespace KestrelCompiler

namespace Rule

theorem advances_signature : Advances signature :=
  advances_bind (advances_token "(") fun _ => forward_bind (forward_typesOf forward_type []) fun _ =>
    forward_bind (forward_expect ")") fun _ => forward_bind (forward_optional forward_type) fun _ =>
      forward_pure _

theorem advances_type : Advances type := by
  rw [type_eq]
  refine advances_orElse (advances_map advances_signature _) (forward_map forward_signature _) ?_
  exact advances_bind (advances_lexeme Lexeme.consumes_identifier) fun _ => forward_stars _

end Rule

open Rule

namespace RuleName

theorem forward_rule (r : RuleName) : Forward r.rule := by
  cases r with
  | program => exact forward_map (forward_map (forward_declarations []) _) _
  | declaration => exact forward_map forward_declaration _
  | type => exact forward_map forward_type _
  | signature => exact forward_map forward_signature _
  | statement => exact forward_map forward_statement _
  | conditional => exact forward_map (forward_conditionalOf forward_block) _
  | returned => exact forward_map forward_returned _
  | directive => exact forward_map forward_directive _
  | block => exact forward_map forward_block _
  | expression => exact forward_map forward_expression _
  | primary => exact forward_map forward_primary _
  | stringLiteral => exact forward_map forward_stringLiteral _

theorem advances_rule {r : RuleName} (hr : r ≠ .program) : Advances r.rule := by
  cases r with
  | program => exact absurd rfl hr
  | declaration => exact advances_map advances_declaration _
  | type => exact advances_map advances_type _
  | signature => exact advances_map advances_signature _
  | statement => exact advances_map advances_statement _
  | conditional => exact advances_map (advances_conditionalOf forward_block) _
  | returned => exact advances_map advances_returned _
  | directive => exact advances_map advances_directive _
  | block => exact advances_map advances_block _
  | expression => exact advances_map advances_expression _
  | primary => exact advances_map advances_primary _
  | stringLiteral => exact advances_map advances_stringLiteral _

end RuleName

end KestrelCompiler
