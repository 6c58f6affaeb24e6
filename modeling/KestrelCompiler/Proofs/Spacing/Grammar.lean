import KestrelCompiler.Proofs.Concatenation.Displacement
import KestrelCompiler.Proofs.Grammar.Completeness
import KestrelCompiler.Proofs.Spacing.Spaced

/-!
Derivations over lexemes with other blanks. Each phrase of the grammar is carried over as its
lexemes are: the new places have a derivation of the same kind, whose tree looks like the old one.
-/

namespace KestrelCompiler.Derivation

open Position

variable {α β : Type} {v : TokenView} {p q : Position} {spans : List Span}

/-- Between the places a tree is derived that looks like `y`. -/
def Redrawn (derives : Position → α → List Span → Position → Prop) (look : α → β) (y : β) :
    Position → List Span → Position → Prop :=
  fun p s q => ∃ x, derives p x s q ∧ look x = y

section Types

theorem carried_stars {inner type : TypeExpr} (h : Stars inner p type spans q) :
    Carried v p spans q fun p' s q' => ∀ inner' : TypeExpr,
      inner'.mapTokens v.new = inner.mapTokens v.old →
        Redrawn (Stars inner') (·.mapTokens v.new) (type.mapTokens v.old) p' s q' := by
  induction h with
  | none =>
      refine (carried_nil _).mono ?_
      rintro p' s q' ⟨rfl, rfl⟩ inner' hinner
      exact ⟨inner', .none, hinner⟩
  | star hstar _ ih =>
      refine ((carried_fixed hstar Shape.solid_star rfl).comp ih).mono ?_
      rintro p' _ q' ⟨m, _, s, rfl, ⟨star', rfl, hstar', hsame⟩, hmore⟩ inner' hinner
      obtain ⟨type', hstars, htype⟩ := hmore (.pointer inner' star') (by
        simp only [TypeExpr.mapTokens, hinner, hsame])
      exact ⟨type', .star hstar' hstars, htype⟩

mutual

theorem carried_type {p q : Position} {type : TypeExpr} {spans : List Span} :
    TypeAt p type spans q →
      Carried v p spans q (Redrawn TypeAt (·.mapTokens v.new) (type.mapTokens v.old))
  | .named hname hstars => by
    refine ((carried_identifier hname).comp (carried_stars hstars)).mono ?_
    rintro p' _ q' ⟨m, _, s, rfl, ⟨name', rfl, hname', hsame⟩, hmore⟩
    obtain ⟨type', hstars', htype⟩ := hmore (.named name') (congrArg TypeExpr.named hsame)
    exact ⟨type', .named hname' hstars', htype⟩
  | .function hs => by
    refine (carried_signature hs).mono ?_
    rintro p' _ q' ⟨s', hs', hlook⟩
    have htype := congrArg Signature.toType hlook
    simp only [Signature.toType_mapTokens] at htype
    exact ⟨s'.toType, .function hs', htype⟩

theorem carried_signature {p q : Position} {s : Signature} {spans : List Span} :
    SignatureAt p s spans q →
      Carried v p spans q (Redrawn SignatureAt (·.mapTokens v.new) (s.mapTokens v.old))
  | .mk hleft hargs hright hret => by
    refine ((carried_fixed hleft Shape.solid_leftParen rfl).comp ((carried_types hargs).comp
      ((carried_fixed hright Shape.solid_rightParen rfl).comp (carried_result hret)))).mono ?_
    rintro p' _ q' ⟨_, _, _, rfl, ⟨left', rfl, hleft', hsame⟩, _, _, _, rfl,
      ⟨args', hargs', hlooks⟩, _, _, _, rfl, ⟨right', rfl, hright', hsame'⟩, ret', hret', hlook⟩
    refine ⟨⟨args', ret', left', right'⟩, .mk hleft' hargs' hright' hret', ?_⟩
    simp only [Signature.mapTokens, hsame, hsame', hlooks, hlook]

theorem carried_types {p q : Position} {types : List TypeExpr} {spans : List Span} :
    TypesAt p types spans q → Carried v p spans q
      (Redrawn TypesAt (·.map (·.mapTokens v.new)) (types.map (·.mapTokens v.old)))
  | .none => by
    refine (carried_nil _).mono ?_
    rintro p' s q' ⟨rfl, rfl⟩
    exact ⟨[], .none, rfl⟩
  | .last htype => by
    refine (carried_type htype).mono ?_
    rintro p' _ q' ⟨type', htype', hlook⟩
    exact ⟨[type'], .last htype', congrArg (fun type => [type]) hlook⟩
  | .more htype hcomma hmore => by
    refine ((carried_type htype).comp
      ((carried_fixed hcomma Shape.solid_comma rfl).comp (carried_types hmore))).mono ?_
    rintro p' _ q' ⟨_, _, _, rfl, ⟨type', htype', hlook⟩, _, _, _, rfl,
      ⟨comma', rfl, hcomma', -⟩, types', hmore', hlooks⟩
    exact ⟨type' :: types', .more htype' hcomma' hmore', congrArg₂ List.cons hlook hlooks⟩

theorem carried_result {p q : Position} {ret : Option TypeExpr} {spans : List Span} :
    ResultAt p ret spans q → Carried v p spans q
      (Redrawn ResultAt (·.map (·.mapTokens v.new)) (ret.map (·.mapTokens v.old)))
  | .none => by
    refine (carried_nil _).mono ?_
    rintro p' s q' ⟨rfl, rfl⟩
    exact ⟨none, .none, rfl⟩
  | .some htype => by
    refine (carried_type htype).mono ?_
    rintro p' _ q' ⟨type', htype', hlook⟩
    exact ⟨some type', .some htype', congrArg some hlook⟩

end

end Types

section Expressions

theorem carried_primary {e : Expr} (h : PrimaryAt p e spans q) :
    Carried v p spans q (Redrawn PrimaryAt (·.mapTokens v.new) (e.mapTokens v.old)) := by
  cases h with
  | number hnumber =>
      refine (carried_reads hnumber Shape.solid_number Shape.lasting_number
        Shape.spelled_number).mono ?_
      rintro p' _ q' ⟨t', rfl, ht', hsame⟩
      exact ⟨.number t', .number ht', congrArg Expr.number hsame⟩
  | string hstring =>
      refine (carried_string hstring).mono ?_
      rintro p' _ q' ⟨t', rfl, ht', hsame⟩
      exact ⟨.string t', .string ht', congrArg Expr.string hsame⟩
  | name hname =>
      refine (carried_reads hname Shape.solid_name Shape.lasting_name Shape.spelled_name).mono ?_
      rintro p' _ q' ⟨t', rfl, ht', hsame⟩
      exact ⟨.name t', .name ht', congrArg Expr.name hsame⟩

section Operators

variable {operators : List (String × Operation)}
  {operand : Position → Expr → List Span → Position → Prop}

theorem carried_operands (hsolid : ∀ entry ∈ operators, (Shape.fixed entry.1).Solid)
    (hnumeric : ∀ entry ∈ operators, entry.1.toList.head?.any Text.isNumeric = false)
    (hoperand : ∀ p e spans q, operand p e spans q →
      Carried v p spans q (Redrawn operand (·.mapTokens v.new) (e.mapTokens v.old)))
    {left e : Expr} (h : OperandsAt operators operand left p e spans q) :
    Carried v p spans q fun p' s q' => ∀ left' : Expr,
      left'.mapTokens v.new = left.mapTokens v.old →
        Redrawn (OperandsAt operators operand left') (·.mapTokens v.new) (e.mapTokens v.old)
          p' s q' := by
  induction h with
  | none =>
      refine (carried_nil _).mono ?_
      rintro p' s q' ⟨rfl, rfl⟩ left' hleft
      exact ⟨left', .none, hleft⟩
  | @more _ _ _ _ _ _ _ _ operation _ _ _ hmem hop hright _ ih =>
      refine ((carried_fixed hop (hsolid _ hmem) (hnumeric _ hmem)).comp
        ((hoperand _ _ _ _ hright).comp ih)).mono ?_
      rintro p' _ q' ⟨_, _, _, rfl, ⟨op', rfl, hop', hsame⟩, _, _, _, rfl,
        ⟨right', hright', hlook⟩, hmore⟩ left' hleft
      obtain ⟨e', hmore', he⟩ := hmore (.binary operation left' op' right') (by
        simp only [Expr.mapTokens, hleft, hsame, hlook])
      rw [List.singleton_append]
      exact ⟨e', .more hmem hop' hright' hmore', he⟩

theorem carried_joined (hsolid : ∀ entry ∈ operators, (Shape.fixed entry.1).Solid)
    (hnumeric : ∀ entry ∈ operators, entry.1.toList.head?.any Text.isNumeric = false)
    (hoperand : ∀ p e spans q, operand p e spans q →
      Carried v p spans q (Redrawn operand (·.mapTokens v.new) (e.mapTokens v.old)))
    {e : Expr} (h : JoinedAt operators operand p e spans q) :
    Carried v p spans q
      (Redrawn (JoinedAt operators operand) (·.mapTokens v.new) (e.mapTokens v.old)) := by
  cases h with
  | mk hfirst hmore =>
      refine ((hoperand _ _ _ _ hfirst).comp
        (carried_operands hsolid hnumeric hoperand hmore)).mono ?_
      rintro p' _ q' ⟨_, _, _, rfl, ⟨first', hfirst', hlook⟩, hmore'⟩
      obtain ⟨e', hoperands, he⟩ := hmore' first' hlook
      exact ⟨e', .mk hfirst' hoperands, he⟩

end Operators

theorem carried_sum {e : Expr} (h : SumAt p e spans q) :
    Carried v p spans q (Redrawn SumAt (·.mapTokens v.new) (e.mapTokens v.old)) :=
  carried_joined Rule.apart_additive.1 (by decide +kernel) (fun _ _ _ _ => carried_primary) h

theorem carried_expression {e : Expr} (h : ExprAt p e spans q) :
    Carried v p spans q (Redrawn ExprAt (·.mapTokens v.new) (e.mapTokens v.old)) :=
  carried_joined Rule.apart_comparison.1 (by decide +kernel) (fun _ _ _ _ => carried_sum) h

end Expressions

section Statements

theorem carried_names {names : List Token} (h : NamesAt p names spans q) :
    Carried v p spans q (Redrawn NamesAt (·.map v.new) (names.map v.old)) := by
  induction h with
  | last hname =>
      refine (carried_identifier hname).mono ?_
      rintro p' _ q' ⟨name', rfl, hname', hsame⟩
      exact ⟨[name'], .last hname', congrArg (fun name => [name]) hsame⟩
  | more hname hcomma _ ih =>
      refine ((carried_identifier hname).comp
        ((carried_fixed hcomma Shape.solid_comma rfl).comp ih)).mono ?_
      rintro p' _ q' ⟨_, _, _, rfl, ⟨name', rfl, hname', hsame⟩, _, _, _, rfl,
        ⟨comma', rfl, hcomma', -⟩, names', hmore', hlooks⟩
      exact ⟨name' :: names', .more hname' hcomma' hmore', congrArg₂ List.cons hsame hlooks⟩

theorem carried_keyword {text : String} {t : Token} (h : Reads (.keyword text) p t q)
    (hsolid : (Shape.fixed text).Solid) (hnumeric : text.toList.head?.any Text.isNumeric = false) :
    Carried v p [t.span] q fun p' s q' =>
      ∃ t', s = [t'.span] ∧ Reads (.keyword text) p' t' q' ∧ v.new t' = v.old t :=
  carried_reads h hsolid.keyword (Shape.lasting_keyword text) (Shape.spelled_keyword hnumeric)

mutual

theorem carried_block {p q : Position} {b : Block} {spans : List Span} :
    BlockAt p b spans q →
      Carried v p spans q (Redrawn BlockAt (·.mapTokens v.new) (b.mapTokens v.old))
  | .mk hleft hitems hright => by
    refine ((carried_fixed hleft Shape.solid_leftBrace rfl).comp ((carried_statements hitems).comp
      (carried_fixed hright Shape.solid_rightBrace rfl))).mono ?_
    rintro p' _ q' ⟨_, _, _, rfl, ⟨left', rfl, hleft', hsame⟩, _, _, _, rfl,
      ⟨items', hitems', hlooks⟩, right', rfl, hright', hsame'⟩
    refine ⟨.mk left' items' right', .mk hleft' hitems' hright', ?_⟩
    simp only [Block.mapTokens_mk, hsame, hsame', hlooks]

theorem carried_statements {p q : Position} {items : List Stmt} {spans : List Span} :
    StatementsAt p items spans q → Carried v p spans q
      (Redrawn StatementsAt (·.map (·.mapTokens v.new)) (items.map (·.mapTokens v.old)))
  | .none => by
    refine (carried_nil _).mono ?_
    rintro p' s q' ⟨rfl, rfl⟩
    exact ⟨[], .none, rfl⟩
  | .more hitem hmore => by
    refine ((carried_statement hitem).comp (carried_statements hmore)).mono ?_
    rintro p' _ q' ⟨_, _, _, rfl, ⟨item', hitem', hlook⟩, items', hmore', hlooks⟩
    exact ⟨item' :: items', .more hitem' hmore', congrArg₂ List.cons hlook hlooks⟩

theorem carried_statement {p q : Position} {s : Stmt} {spans : List Span} :
    StatementAt p s spans q →
      Carried v p spans q (Redrawn StatementAt (·.mapTokens v.new) (s.mapTokens v.old))
  | .block hbody => by
    refine (carried_block hbody).mono ?_
    rintro p' _ q' ⟨body', hbody', hlook⟩
    exact ⟨.block body', .block hbody', congrArg Stmt.block hlook⟩
  | .ifThen hif hcondition hyes => by
    refine ((carried_keyword hif Shape.solid_if rfl).comp ((carried_expression hcondition).comp
      (carried_block hyes))).mono ?_
    rintro p' _ q' ⟨_, _, _, rfl, ⟨keyword', rfl, hif', hsame⟩, _, _, _, rfl,
      ⟨condition', hcondition', hlook⟩, yes', hyes', hlook'⟩
    rw [List.singleton_append]
    refine ⟨.ifThen keyword' condition' yes', .ifThen hif' hcondition' hyes', ?_⟩
    simp only [Stmt.mapTokens, hsame, hlook, hlook']
  | .ifElse hif hcondition hyes helse hno => by
    refine ((carried_keyword hif Shape.solid_if rfl).comp ((carried_expression hcondition).comp
      ((carried_block hyes).comp ((carried_keyword helse Shape.solid_else rfl).comp
        (carried_block hno))))).mono ?_
    rintro p' _ q' ⟨_, _, _, rfl, ⟨keyword', rfl, hif', hsame⟩, _, _, _, rfl,
      ⟨condition', hcondition', hlook⟩, _, _, _, rfl, ⟨yes', hyes', hlook'⟩, _, _, _, rfl,
      ⟨other', rfl, helse', -⟩, no', hno', hlook''⟩
    refine ⟨.ifElse keyword' condition' yes' no', .ifElse hif' hcondition' hyes' helse' hno', ?_⟩
    simp only [Stmt.mapTokens, hsame, hlook, hlook', hlook'']
  | .ret hmarker hvalue => by
    refine ((carried_fixed hmarker Shape.solid_colon rfl).comp (carried_expression hvalue)).mono ?_
    rintro p' _ q' ⟨_, _, _, rfl, ⟨marker', rfl, hmarker', hsame⟩, value', hvalue', hlook⟩
    exact ⟨.ret marker' value', .ret hmarker' hvalue', congrArg₂ Stmt.ret hsame hlook⟩
  | .directive hname hbang hargs => by
    refine ((carried_directive hname hbang).comp (carried_names hargs)).mono ?_
    rintro p' _ q' ⟨_, _, _, rfl, ⟨name', bang', _, rfl, hname', hbang', hsame, hsame'⟩, args',
      hargs', hlooks⟩
    refine ⟨.directive name' bang' args', .directive hname' hbang' hargs', ?_⟩
    simp only [Stmt.mapTokens, hsame, hsame', hlooks]

end

end Statements

theorem carried_declaration {d : FunctionDecl} (h : DeclarationAt p d spans q) :
    Carried v p spans q (Redrawn DeclarationAt (·.mapTokens v.new) (d.mapTokens v.old)) := by
  cases h with
  | mk hname hs hbody =>
      refine ((carried_identifier hname).comp ((carried_signature hs).comp
        (carried_block hbody))).mono ?_
      rintro p' _ q' ⟨_, _, _, rfl, ⟨name', rfl, hname', hsame⟩, _, _, _, rfl,
        ⟨s', hs', hlook⟩, body', hbody', hlook'⟩
      rw [List.singleton_append]
      refine ⟨⟨name', s', body'⟩, .mk hname' hs' hbody', ?_⟩
      simp only [FunctionDecl.mapTokens, hsame, hlook, hlook']

theorem carried_declarations {decls : List FunctionDecl} (h : DeclarationsAt p decls spans q) :
    Carried v p spans q (Redrawn DeclarationsAt (·.map (·.mapTokens v.new))
      (decls.map (·.mapTokens v.old))) := by
  induction h with
  | none =>
      refine (carried_nil _).mono ?_
      rintro p' s q' ⟨rfl, rfl⟩
      exact ⟨[], .none, rfl⟩
  | more hdecl _ ih =>
      refine ((carried_declaration hdecl).comp ih).mono ?_
      rintro p' _ q' ⟨_, _, _, rfl, ⟨d', hdecl', hlook⟩, rest', hmore', hlooks⟩
      exact ⟨d' :: rest', .more hdecl' hmore', congrArg₂ List.cons hlook hlooks⟩

end KestrelCompiler.Derivation
