import KestrelCompiler.Proofs.Reread.Node
import KestrelCompiler.Proofs.Spacing.Grammar

/-!
The nodes of a derived tree. Each of them is derived on its own from the place where its first lexeme
stands, and it spans what this derivation leads over. The left operand of an operator and the inside
of a pointer are no parts of the derivation they stem from, but what it had read before it went on.
-/

namespace KestrelCompiler

open Position

namespace Position

/-- A text leads from `p` to `q`. -/
def Reaches (p q : Position) : Prop :=
  ∃ text, p.rest = text ++ q.rest ∧ q.location = p.location.walk text

variable {p m q : Position} {t : Token}

theorem Reaches.refl (p : Position) : Reaches p p :=
  ⟨[], rfl, rfl⟩

theorem Reaches.trans (h : Reaches p m) (h' : Reaches m q) : Reaches p q := by
  obtain ⟨text, hrest, hlocation⟩ := h
  obtain ⟨text', hrest', hlocation'⟩ := h'
  refine ⟨text ++ text', ?_, ?_⟩
  · rw [hrest, hrest', List.append_assoc]
  · rw [hlocation', hlocation, Location.walk_append]

theorem reaches_skip (p : Position) : Reaches p p.skip :=
  ⟨p.rest.takeWhile Text.isBlank, List.takeWhile_append_dropWhile.symm, rfl⟩

theorem Stands.reaches {word : List Char} {s : Span} (h : p.Stands word s q) : Reaches p q := by
  obtain ⟨blanks, -, hrest, hstart, hstop, hq⟩ := h
  refine ⟨blanks ++ word, ?_, ?_⟩
  · rw [hrest, List.append_assoc]
  · rw [hq, hstop, hstart, Location.walk_append]

theorem Reads.reaches {shape : Shape} (h : Reads shape p t q) : Reaches p q := by
  obtain ⟨_, _, hstands, _⟩ := h
  exact hstands.reaches

theorem Carried.reaches {v : TokenView} {spans : List Span}
    {P : Position → List Span → Position → Prop} (h : Carried v p spans q P) : Reaches p q := by
  obtain ⟨xs, hleads, -⟩ := h
  exact ⟨Spaced.textOf xs, hleads.rest, hleads.location⟩

theorem Reads.span_eq {shape : Shape} (h : Reads shape p t q) (hsolid : shape.Solid) :
    t.span = ⟨p.skip.location, q.location⟩ := by
  obtain ⟨word, -, -, hq, rfl⟩ := (reads_iff hsolid).mp h
  rw [hq]

theorem ReadsString.span_eq (h : ReadsString p t q) : t.span = ⟨p.skip.location, q.location⟩ := by
  obtain ⟨pieces, hstands, -⟩ := h
  obtain ⟨-, hspan, hq⟩ := (stands_iff rfl (by decide)).mp hstands
  rw [hq, hspan]

theorem Reads.skip {shape : Shape} (h : Reads shape p t q) (hsolid : shape.Solid) :
    Reads shape p.skip t q := by
  rw [reads_iff hsolid, skip_skip]
  exact (reads_iff hsolid).mp h

theorem ReadsString.skip (h : ReadsString p t q) : ReadsString p.skip t q := by
  obtain ⟨pieces, hstands, ht⟩ := h
  refine ⟨pieces, (stands_iff rfl (by decide)).mpr ?_, ht⟩
  rw [skip_skip]
  exact (stands_iff rfl (by decide)).mp hstands

end Position

namespace Derivation

/-- The node is derived by its own rule. -/
def NodeAt (p : Position) : Node → List Span → Position → Prop
  | .type t => TypeAt p t
  | .signature s => SignatureAt p s
  | .expression e => ExprAt p e
  | .block b => BlockAt p b
  | .directive name bang args => StatementAt p (.directive name bang args)

/-- Each of the nodes is derived somewhere in the text that is left at `p`. -/
def Holds (p : Position) (nodes : List Node) : Prop :=
  ∀ node ∈ nodes, ∃ m spans q, Reaches p m ∧ NodeAt m node spans q

variable {p m q : Position} {spans spans' : List Span} {nodes nodes' : List Node}

theorem holds_nil (p : Position) : Holds p [] :=
  List.forall_mem_nil _

theorem Holds.cons {node : Node} (h : NodeAt p node spans q) (hrest : Holds p nodes) :
    Holds p (node :: nodes) :=
  List.forall_mem_cons.mpr ⟨⟨p, spans, q, .refl p, h⟩, hrest⟩

theorem Holds.append (h : Holds p nodes) (h' : Holds p nodes') : Holds p (nodes ++ nodes') :=
  List.forall_mem_append.mpr ⟨h, h'⟩

theorem Holds.after (h : Holds m nodes) (hpm : Reaches p m) : Holds p nodes := by
  intro node hnode
  obtain ⟨m', spans, q, hreaches, hat⟩ := h node hnode
  exact ⟨m', spans, q, hpm.trans hreaches, hat⟩

section Types

theorem Stars.snoc {inner type : TypeExpr} {star : Token} {q' : Position}
    (h : Stars inner p type spans q) (hstar : Reads (.fixed "*") q star q') :
    Stars inner p (.pointer type star) (spans ++ [star.span]) q' := by
  induction h with
  | none => exact .star hstar .none
  | star hfirst _ ih => exact .star hfirst (ih hstar)

/-- What was read of a pointer before its last star is a type itself. -/
theorem Stars.holds {inner type : TypeExpr} {name : Token} {p₁ : Position}
    (h : Stars inner m type spans' q) (hname : Reads .identifier p name p₁)
    (hbefore : Stars (.named name) p₁ inner spans m) (hinner : Holds p inner.nodes) :
    Holds p type.nodes := by
  induction h generalizing spans with
  | none => exact hinner
  | star hstar _ ih =>
      have hlonger := hbefore.snoc hstar
      exact ih hlonger (hinner.cons (.named hname hlonger))

theorem Signature.nodes_toType (s : Signature) : s.toType.nodes = .type s.toType :: s.nodes := by
  obtain ⟨args, ret, left, right⟩ := s
  cases ret <;> simp [Signature.toType, Signature.nodes, TypeExpr.nodes]

mutual

theorem TypeAt.holds {p q : Position} {type : TypeExpr} {spans : List Span} :
    TypeAt p type spans q → Holds p type.nodes
  | .named hname hstars =>
    hstars.holds hname .none ((holds_nil p).cons (.named hname .none))
  | .function hs => by
    rw [← Signature.toType, Signature.nodes_toType]
    exact hs.holds.cons (.function hs)

theorem SignatureAt.holds {p q : Position} {s : Signature} {spans : List Span} :
    SignatureAt p s spans q → Holds p s.nodes
  | .mk hleft hargs hright hret => by
    have hbehind := hleft.reaches.trans (carried_types (v := ⟨id, id⟩) hargs).reaches
    refine Holds.cons (.mk hleft hargs hright hret) (.append (hargs.holds.after hleft.reaches) ?_)
    exact hret.holds.after (hbehind.trans hright.reaches)

theorem TypesAt.holds {p q : Position} {types : List TypeExpr} {spans : List Span} :
    TypesAt p types spans q → Holds p (TypeExpr.nodesOf types)
  | .none => holds_nil p
  | .last htype => htype.holds.append (holds_nil p)
  | .more htype hcomma hmore => by
    have hbehind := (carried_type (v := ⟨id, id⟩) htype).reaches
    exact htype.holds.append (hmore.holds.after (hbehind.trans hcomma.reaches))

theorem ResultAt.holds {p q : Position} {ret : Option TypeExpr} {spans : List Span} :
    ResultAt p ret spans q → Holds p (ret.elim [] TypeExpr.nodes)
  | .none => holds_nil p
  | .some htype => htype.holds

end

end Types

section Expressions

variable {operators : List (String × Operation)}
  {operand : Position → Expr → List Span → Position → Prop}

theorem OperandsAt.snoc {left e right : Expr} {text : String} {operation : Operation} {op : Token}
    {p₁ p₂ : Position} (h : OperandsAt operators operand left p e spans q)
    (hmem : (text, operation) ∈ operators) (hop : Reads (.fixed text) q op p₁)
    (hright : operand p₁ right spans' p₂) :
    ∃ s, OperandsAt operators operand left p (.binary operation e op right) s p₂ := by
  induction h with
  | none => exact ⟨_, .more hmem hop hright .none⟩
  | more hmem' hop' hright' _ ih =>
      obtain ⟨s, hmore⟩ := ih hop
      exact ⟨_, .more hmem' hop' hright' hmore⟩

/-- What was read before an operator is an expression itself. -/
theorem OperandsAt.holds (hexpr : ∀ p e spans q, JoinedAt operators operand p e spans q →
      ∃ spans, ExprAt p e spans q)
    (hoperand : ∀ p e spans q, operand p e spans q → Holds p e.nodes ∧ Reaches p q)
    {first left e : Expr} {p₁ : Position} {spans'' : List Span} (hfirst : operand p first spans p₁)
    (hbefore : OperandsAt operators operand first p₁ left spans' m) (hpm : Reaches p m)
    (hleft : Holds p left.nodes) (h : OperandsAt operators operand left m e spans'' q) :
    Holds p e.nodes ∧ Reaches p q := by
  induction h generalizing spans' with
  | none => exact ⟨hleft, hpm⟩
  | more hmem hop hright _ ih =>
      obtain ⟨s, hlonger⟩ := hbefore.snoc hmem hop hright
      obtain ⟨s', hnode⟩ := hexpr _ _ _ _ (.mk hfirst hlonger)
      obtain ⟨hnodes, hreaches⟩ := hoperand _ _ _ _ hright
      have hop := hpm.trans hop.reaches
      exact ih hlonger (hop.trans hreaches) (.cons hnode (hleft.append (hnodes.after hop)))

theorem JoinedAt.holds (hexpr : ∀ p e spans q, JoinedAt operators operand p e spans q →
      ∃ spans, ExprAt p e spans q)
    (hoperand : ∀ p e spans q, operand p e spans q → Holds p e.nodes ∧ Reaches p q)
    {e : Expr} (h : JoinedAt operators operand p e spans q) :
    Holds p e.nodes ∧ Reaches p q := by
  cases h with
  | mk hfirst hmore =>
      obtain ⟨hnodes, hreaches⟩ := hoperand _ _ _ _ hfirst
      exact OperandsAt.holds hexpr hoperand hfirst .none hreaches hnodes hmore

theorem SumAt.expression {e : Expr} (h : SumAt p e spans q) : ∃ spans, ExprAt p e spans q :=
  ⟨_, .mk h .none⟩

theorem PrimaryAt.holds {e : Expr} (h : PrimaryAt p e spans q) :
    Holds p e.nodes ∧ Reaches p q := by
  refine ⟨?_, (carried_primary (v := ⟨id, id⟩) h).reaches⟩
  obtain ⟨spans, hexpr⟩ := SumAt.expression (.mk h .none)
  cases h with
  | number _ | string _ | name _ => exact (holds_nil p).cons hexpr

theorem ExprAt.holds {e : Expr} (h : ExprAt p e spans q) : Holds p e.nodes ∧ Reaches p q := by
  have hsum : ∀ p e spans q, SumAt p e spans q → Holds p e.nodes ∧ Reaches p q :=
    fun _ _ _ _ h => JoinedAt.holds (fun _ _ _ _ => SumAt.expression) (fun _ _ _ _ => PrimaryAt.holds) h
  exact JoinedAt.holds (fun _ _ spans _ h => ⟨spans, h⟩) hsum h

end Expressions

section Statements

mutual

theorem BlockAt.holds {p q : Position} {b : Block} {spans : List Span} :
    BlockAt p b spans q → Holds p b.nodes
  | .mk hleft hitems hright =>
    .cons (.mk hleft hitems hright) (hitems.holds.after hleft.reaches)

theorem StatementsAt.holds {p q : Position} {items : List Stmt} {spans : List Span} :
    StatementsAt p items spans q → Holds p (Stmt.nodesOf items)
  | .none => holds_nil p
  | .more hitem hmore =>
    hitem.holds.append (hmore.holds.after (carried_statement (v := ⟨id, id⟩) hitem).reaches)

theorem StatementAt.holds {p q : Position} {s : Stmt} {spans : List Span} :
    StatementAt p s spans q → Holds p s.nodes
  | .block hbody => hbody.holds
  | .ifThen hif hcondition hyes => by
    have hbehind := hif.reaches.trans hcondition.holds.2
    exact (hcondition.holds.1.after hif.reaches).append (hyes.holds.after hbehind)
  | .ifElse hif hcondition hyes helse hno => by
    have hbehind := hif.reaches.trans hcondition.holds.2
    have hbranch := (carried_block (v := ⟨id, id⟩) hyes).reaches.trans helse.reaches
    exact (hcondition.holds.1.after hif.reaches).append
      ((hyes.holds.after hbehind).append (hno.holds.after (hbehind.trans hbranch)))
  | .ret hmarker hvalue => hvalue.holds.1.after hmarker.reaches
  | .directive hname hbang hargs => (holds_nil p).cons (.directive hname hbang hargs)

end

theorem DeclarationAt.holds {d : FunctionDecl} (h : DeclarationAt p d spans q) :
    Holds p d.nodes := by
  cases h with
  | mk hname hs hbody =>
      have hbehind := hname.reaches.trans (carried_signature (v := ⟨id, id⟩) hs).reaches
      exact (hs.holds.after hname.reaches).append (hbody.holds.after hbehind)

theorem DeclarationsAt.holds {decls : List FunctionDecl} (h : DeclarationsAt p decls spans q) :
    Holds p (decls.flatMap FunctionDecl.nodes) := by
  induction h with
  | none => exact holds_nil _
  | more hdecl _ ih =>
      exact hdecl.holds.append (ih.after (carried_declaration (v := ⟨id, id⟩) hdecl).reaches)

end Statements

section Spans

theorem Stars.span_start {inner type : TypeExpr} (h : Stars inner p type spans q) :
    type.span.start = inner.span.start := by
  induction h with
  | none => rfl
  | star _ _ ih => exact ih

theorem Stars.span_stop {inner type : TypeExpr} (h : Stars inner p type spans q)
    (hinner : inner.span.stop = p.location) : type.span.stop = q.location := by
  induction h with
  | none => exact hinner
  | star hstar _ ih => exact ih (congrArg Span.stop (hstar.span_eq Shape.solid_star))

theorem Signature.span_start (s : Signature) : s.span.start = s.left.span.start := by
  obtain ⟨args, ret, left, right⟩ := s
  cases ret <;> rfl

mutual

theorem TypeAt.span_eq {p q : Position} {type : TypeExpr} {spans : List Span} :
    TypeAt p type spans q → type.span = ⟨p.skip.location, q.location⟩
  | .named hname hstars => by
    have hspan := hname.span_eq Shape.solid_identifier
    have hstart := hstars.span_start.trans (congrArg Span.start hspan)
    have hstop := hstars.span_stop (congrArg Span.stop hspan)
    exact congrArg₂ Span.mk hstart hstop
  | .function hs => hs.span_eq

theorem SignatureAt.span_eq {p q : Position} {s : Signature} {spans : List Span} :
    SignatureAt p s spans q → s.span = ⟨p.skip.location, q.location⟩
  | .mk hleft _ hright hret => by
    have hstart := congrArg Span.start (hleft.span_eq Shape.solid_leftParen)
    have hstop := congrArg Span.stop (hright.span_eq Shape.solid_rightParen)
    exact congrArg₂ Span.mk ((Signature.span_start _).trans hstart) (hret.span_stop _ _ _ hstop)

/-- A signature ends with its return type, or else with its parenthesis. -/
theorem ResultAt.span_stop {p q : Position} {ret : Option TypeExpr} {spans : List Span} :
    ResultAt p ret spans q → ∀ args left right, right.span.stop = p.location →
      (Signature.span ⟨args, ret, left, right⟩).stop = q.location
  | .none, _, _, _, hright => hright
  | .some htype, _, _, _, _ => congrArg Span.stop htype.span_eq

end

theorem PrimaryAt.span_eq {e : Expr} (h : PrimaryAt p e spans q) :
    e.span = ⟨p.skip.location, q.location⟩ := by
  cases h with
  | number hnumber => exact hnumber.span_eq Shape.solid_number
  | string hstring => exact hstring.span_eq
  | name hname => exact hname.span_eq Shape.solid_name

section Operators

variable {operators : List (String × Operation)}
  {operand : Position → Expr → List Span → Position → Prop}

theorem OperandsAt.span_eq (hoperand : ∀ p e spans q, operand p e spans q →
      e.span = ⟨p.skip.location, q.location⟩)
    {left e : Expr} {l : Location} (h : OperandsAt operators operand left p e spans q)
    (hleft : left.span = ⟨l, p.location⟩) : e.span = ⟨l, q.location⟩ := by
  induction h with
  | none => exact hleft
  | more _ _ hright _ ih =>
      refine ih (congrArg₂ Span.mk (congrArg Span.start hleft) ?_)
      exact congrArg Span.stop (hoperand _ _ _ _ hright)

theorem JoinedAt.span_eq (hoperand : ∀ p e spans q, operand p e spans q →
      e.span = ⟨p.skip.location, q.location⟩)
    {e : Expr} (h : JoinedAt operators operand p e spans q) :
    e.span = ⟨p.skip.location, q.location⟩ := by
  cases h with
  | mk hfirst hmore => exact hmore.span_eq hoperand (hoperand _ _ _ _ hfirst)

end Operators

theorem ExprAt.span_eq {e : Expr} (h : ExprAt p e spans q) :
    e.span = ⟨p.skip.location, q.location⟩ := by
  have hsum : ∀ p e spans q, SumAt p e spans q → e.span = ⟨p.skip.location, q.location⟩ :=
    fun _ _ _ _ h => JoinedAt.span_eq (fun _ _ _ _ => PrimaryAt.span_eq) h
  exact JoinedAt.span_eq hsum h

theorem BlockAt.span_eq {b : Block} (h : BlockAt p b spans q) :
    b.span = ⟨p.skip.location, q.location⟩ := by
  cases h with
  | mk hleft _ hright =>
      exact congrArg₂ Span.mk (congrArg Span.start (hleft.span_eq Shape.solid_leftBrace))
        (congrArg Span.stop (hright.span_eq Shape.solid_rightBrace))

theorem NamesAt.span_stop {names : List Token} (h : NamesAt p names spans q) (bang : Token) :
    (names.getLastD bang).span.stop = q.location := by
  induction h generalizing bang with
  | last hname => exact congrArg Span.stop (hname.span_eq Shape.solid_identifier)
  | more _ _ _ ih =>
      rw [List.getLastD_cons]
      exact ih _

theorem NodeAt.span_eq {node : Node} (h : NodeAt p node spans q) :
    node.span = ⟨p.skip.location, q.location⟩ := by
  cases node with
  | type t => exact TypeAt.span_eq h
  | signature s => exact SignatureAt.span_eq h
  | expression e => exact ExprAt.span_eq h
  | block b => exact BlockAt.span_eq h
  | directive name bang args =>
      cases h with
      | directive hname _ hargs =>
          have hstart := congrArg Span.start (hname.span_eq Shape.solid_directiveName)
          exact congrArg₂ Span.mk hstart (hargs.span_stop bang)

end Spans

section Skipped

theorem SignatureAt.skip {s : Signature} (h : SignatureAt p s spans q) :
    SignatureAt p.skip s spans q := by
  cases h with
  | mk hleft hargs hright hret =>
      exact .mk (hleft.skip Shape.solid_leftParen) hargs hright hret

theorem TypeAt.skip {type : TypeExpr} (h : TypeAt p type spans q) : TypeAt p.skip type spans q := by
  cases h with
  | named hname hstars => exact .named (hname.skip Shape.solid_identifier) hstars
  | function hs => exact .function hs.skip

theorem PrimaryAt.skip {e : Expr} (h : PrimaryAt p e spans q) : PrimaryAt p.skip e spans q := by
  cases h with
  | number hnumber => exact .number (hnumber.skip Shape.solid_number)
  | string hstring => exact .string hstring.skip
  | name hname => exact .name (hname.skip Shape.solid_name)

theorem JoinedAt.skip {operators : List (String × Operation)}
    {operand : Position → Expr → List Span → Position → Prop}
    (hoperand : ∀ p e spans q, operand p e spans q → operand p.skip e spans q) {e : Expr}
    (h : JoinedAt operators operand p e spans q) : JoinedAt operators operand p.skip e spans q := by
  cases h with
  | mk hfirst hmore => exact .mk (hoperand _ _ _ _ hfirst) hmore

theorem ExprAt.skip {e : Expr} (h : ExprAt p e spans q) : ExprAt p.skip e spans q := by
  have hsum : ∀ p e spans q, SumAt p e spans q → SumAt p.skip e spans q :=
    fun _ _ _ _ h => JoinedAt.skip (fun _ _ _ _ => PrimaryAt.skip) h
  exact JoinedAt.skip hsum h

theorem BlockAt.skip {b : Block} (h : BlockAt p b spans q) : BlockAt p.skip b spans q := by
  cases h with
  | mk hleft hitems hright => exact .mk (hleft.skip Shape.solid_leftBrace) hitems hright

/-- The blanks before a node do not belong to it. -/
theorem NodeAt.skip {node : Node} (h : NodeAt p node spans q) : NodeAt p.skip node spans q := by
  cases node with
  | type t => exact TypeAt.skip h
  | signature s => exact SignatureAt.skip h
  | expression e => exact ExprAt.skip h
  | block b => exact BlockAt.skip h
  | directive name bang args =>
      cases h with
      | directive hname hbang hargs =>
          exact .directive (hname.skip Shape.solid_directiveName) hbang hargs

end Skipped

theorem carried_node {v : TokenView} {node : Node} (h : NodeAt p node spans q) :
    Carried v p spans q (Redrawn NodeAt (·.mapTokens v.new) (node.mapTokens v.old)) := by
  cases node with
  | type t =>
      refine (carried_type h).mono ?_
      rintro p' _ q' ⟨t', ht', hlook⟩
      exact ⟨.type t', ht', congrArg Node.type hlook⟩
  | signature s =>
      refine (carried_signature h).mono ?_
      rintro p' _ q' ⟨s', hs', hlook⟩
      exact ⟨.signature s', hs', congrArg Node.signature hlook⟩
  | expression e =>
      refine (carried_expression h).mono ?_
      rintro p' _ q' ⟨e', he', hlook⟩
      exact ⟨.expression e', he', congrArg Node.expression hlook⟩
  | block b =>
      refine (carried_block h).mono ?_
      rintro p' _ q' ⟨b', hb', hlook⟩
      exact ⟨.block b', hb', congrArg Node.block hlook⟩
  | directive name bang args =>
      refine (carried_statement h).mono ?_
      rintro p' _ q' ⟨s', hs', hlook⟩
      cases s' with
      | directive name' bang' args' =>
          refine ⟨.directive name' bang' args', hs', ?_⟩
          simpa [Stmt.mapTokens, Node.mapTokens] using hlook
      | block _ | ifThen _ _ _ | ifElse _ _ _ _ | ret _ _ => simp [Stmt.mapTokens] at hlook

end Derivation

end KestrelCompiler
