import KestrelCompiler.Proofs.Tree.Layout

/-!
Derivations in a source that goes on. What is derived up to a place where something is left to read
is derived as well when the source gets longer at its end, since a lexeme looks at the next
character at most. A declaration ends with a brace, behind which nothing has to be looked at.
-/

namespace KestrelCompiler

open Position

namespace Shape

/-- At most the next character tells whether a word is a lexeme. -/
def Peeks (shape : Shape) : Prop :=
  ∀ word old new, old.head? = new.head? → shape word old → shape word new

theorem peeks_keyword (text : String) : (keyword text).Peeks :=
  fun _ _ _ hhead h => ⟨h.1, hhead ▸ h.2⟩

theorem peeks_identifier : identifier.Peeks :=
  fun _ _ _ hhead h => ⟨h.1, h.2.1, hhead ▸ h.2.2⟩

theorem peeks_name : name.Peeks :=
  fun word old new hhead h => ⟨peeks_identifier word old new hhead h.1, h.2⟩

theorem peeks_directiveName : directiveName.Peeks :=
  fun word old new hhead h => ⟨peeks_identifier word old new hhead h.1, hhead ▸ h.2⟩

theorem peeks_number : number.Peeks :=
  fun _ _ _ hhead h => ⟨h.1, hhead ▸ h.2⟩

end Shape

namespace Position

/-- The position in its source with more text at the end. -/
def append (p : Position) (text : List Char) : Position where
  location := p.location
  rest := p.rest ++ text

variable {p q : Position} {t : Token}

theorem Stands.append {word : List Char} {s : Span} (h : p.Stands word s q) (text : List Char) :
    (p.append text).Stands word s (q.append text) := by
  obtain ⟨blanks, hblanks, hrest, hspan⟩ := h
  refine ⟨blanks, hblanks, ?_, hspan⟩
  simp only [Position.append, hrest, List.append_assoc]

theorem Reads.append {shape : Shape} (h : Reads shape p t q) (hpeeks : shape.Peeks)
    (hq : q.rest ≠ []) (text : List Char) : Reads shape (p.append text) t (q.append text) := by
  obtain ⟨word, hshape, hstands, htext⟩ := h
  have hhead : q.rest.head? = (q.append text).rest.head? := by
    obtain ⟨c, more, hrest⟩ := List.exists_cons_of_ne_nil hq
    simp only [Position.append, hrest, List.cons_append, List.head?_cons]
  exact ⟨word, hpeeks word _ _ hhead hshape, hstands.append text, htext⟩

/-- A fixed text does not depend on what follows it. -/
theorem Reads.append_fixed {fixed : String} (h : Reads (.fixed fixed) p t q) (text : List Char) :
    Reads (.fixed fixed) (p.append text) t (q.append text) := by
  obtain ⟨word, hshape, hstands, htext⟩ := h
  exact ⟨word, hshape, hstands.append text, htext⟩

theorem ReadsString.append (h : ReadsString p t q) (text : List Char) :
    ReadsString (p.append text) t (q.append text) := by
  obtain ⟨pieces, hstands, ht⟩ := h
  exact ⟨pieces, hstands.append text, ht⟩

theorem rest_ne_nil_of_next? {c : Char} (h : p.next? = some c) : p.rest ≠ [] := by
  intro hnil
  rw [next?, skip, hnil] at h
  cases h

theorem Reads.rest_ne_nil {shape : Shape} (h : Reads shape p t q) (hsolid : shape.Solid) :
    p.rest ≠ [] := by
  obtain ⟨c, hc, -⟩ := h.begins hsolid fun _ hc => hc
  exact rest_ne_nil_of_next? hc

end Position

namespace Leaf

/-- Where leaves lead on to more text, some was left before them as well. -/
theorem Lays.rest_ne_nil {p q : Position} {ls : List Leaf} (h : Lays p ls q) (hq : q.rest ≠ []) :
    p.rest ≠ [] := by
  cases h with
  | nil => exact hq
  | cons hleaf _ =>
      obtain ⟨gap, word, hrest, -, hne, -⟩ := hleaf
      rw [hrest]
      simp [hne]

end Leaf

namespace Derivation

variable {p q : Position} {spans : List Span}

theorem Stars.rest_ne_nil {inner type : TypeExpr} (h : Stars inner p type spans q)
    (hq : q.rest ≠ []) : p.rest ≠ [] := by
  cases h with
  | none => exact hq
  | star hstar _ => exact hstar.rest_ne_nil Shape.solid_star

theorem OperandsAt.rest_ne_nil {operators : List (String × Operation)}
    {operand : Position → Expr → List Span → Position → Prop} {left e : Expr}
    (hsolid : ∀ entry ∈ operators, (Shape.fixed entry.1).Solid)
    (h : OperandsAt operators operand left p e spans q) (hq : q.rest ≠ []) : p.rest ≠ [] := by
  cases h with
  | none => exact hq
  | more hmem hop _ _ => exact hop.rest_ne_nil (hsolid _ hmem)

theorem BlockAt.rest_ne_nil {b : Block} (h : BlockAt p b spans q) : p.rest ≠ [] :=
  rest_ne_nil_of_next? h.next?

variable (text : List Char)

theorem Stars.append {inner type : TypeExpr} (h : Stars inner p type spans q) :
    Stars inner (p.append text) type spans (q.append text) := by
  induction h with
  | none => exact .none
  | star hstar _ ih => exact .star (hstar.append_fixed text) ih

mutual

theorem TypeAt.append {p q : Position} {type : TypeExpr} {spans : List Span} :
    TypeAt p type spans q → q.rest ≠ [] → TypeAt (p.append text) type spans (q.append text)
  | .named hname hstars, hq =>
    .named (hname.append Shape.peeks_identifier (hstars.rest_ne_nil hq) text) (hstars.append text)
  | .function hs, hq => .function (hs.append hq)

theorem SignatureAt.append {p q : Position} {s : Signature} {spans : List Span} :
    SignatureAt p s spans q → q.rest ≠ [] → SignatureAt (p.append text) s spans (q.append text)
  | .mk hleft hargs hright hret, hq =>
    .mk (hleft.append_fixed text) (hargs.append (hright.rest_ne_nil Shape.solid_rightParen))
      (hright.append_fixed text) (hret.append hq)

theorem TypesAt.append {p q : Position} {types : List TypeExpr} {spans : List Span} :
    TypesAt p types spans q → q.rest ≠ [] → TypesAt (p.append text) types spans (q.append text)
  | .none, _ => .none
  | .last htype, hq => .last (htype.append hq)
  | .more htype hcomma hmore, hq =>
    .more (htype.append (hcomma.rest_ne_nil Shape.solid_comma)) (hcomma.append_fixed text)
      (hmore.append hq)

theorem ResultAt.append {p q : Position} {ret : Option TypeExpr} {spans : List Span} :
    ResultAt p ret spans q → q.rest ≠ [] → ResultAt (p.append text) ret spans (q.append text)
  | .none, _ => .none
  | .some htype, hq => .some (htype.append hq)

end

theorem PrimaryAt.append {e : Expr} (h : PrimaryAt p e spans q) (hq : q.rest ≠ []) :
    PrimaryAt (p.append text) e spans (q.append text) := by
  cases h with
  | number hnumber => exact .number (hnumber.append Shape.peeks_number hq text)
  | string hstring => exact .string (hstring.append text)
  | name hname => exact .name (hname.append Shape.peeks_name hq text)

section Operators

variable {operators : List (String × Operation)}
  {operand : Position → Expr → List Span → Position → Prop}

theorem OperandsAt.append (hsolid : ∀ entry ∈ operators, (Shape.fixed entry.1).Solid)
    (hoperand : ∀ p e spans q, operand p e spans q → q.rest ≠ [] →
      operand (p.append text) e spans (q.append text))
    {left e : Expr} (h : OperandsAt operators operand left p e spans q) (hq : q.rest ≠ []) :
    OperandsAt operators operand left (p.append text) e spans (q.append text) := by
  induction h with
  | none => exact .none
  | more hmem hop hright hmore ih =>
      exact .more hmem (hop.append_fixed text)
        (hoperand _ _ _ _ hright (hmore.rest_ne_nil hsolid hq)) (ih hq)

theorem JoinedAt.append (hsolid : ∀ entry ∈ operators, (Shape.fixed entry.1).Solid)
    (hoperand : ∀ p e spans q, operand p e spans q → q.rest ≠ [] →
      operand (p.append text) e spans (q.append text))
    {e : Expr} (h : JoinedAt operators operand p e spans q) (hq : q.rest ≠ []) :
    JoinedAt operators operand (p.append text) e spans (q.append text) := by
  cases h with
  | mk hfirst hmore =>
      exact .mk (hoperand _ _ _ _ hfirst (hmore.rest_ne_nil hsolid hq))
        (hmore.append text hsolid hoperand hq)

end Operators

theorem ExprAt.append {e : Expr} (h : ExprAt p e spans q) (hq : q.rest ≠ []) :
    ExprAt (p.append text) e spans (q.append text) := by
  have hsum : ∀ p e spans q, SumAt p e spans q → q.rest ≠ [] →
      SumAt (p.append text) e spans (q.append text) := fun _ _ _ _ h hq =>
    JoinedAt.append text Rule.apart_additive.1 (fun _ _ _ _ => PrimaryAt.append text) h hq
  exact JoinedAt.append text Rule.apart_comparison.1 hsum h hq

theorem NamesAt.append {names : List Token} (h : NamesAt p names spans q) (hq : q.rest ≠ []) :
    NamesAt (p.append text) names spans (q.append text) := by
  induction h with
  | last hname => exact .last (hname.append Shape.peeks_identifier hq text)
  | more hname hcomma _ ih =>
      have hnext := hcomma.rest_ne_nil Shape.solid_comma
      have hlonger := hname.append Shape.peeks_identifier hnext text
      exact .more hlonger (hcomma.append_fixed text) (ih hq)

mutual

/-- A block ends with its brace, whatever follows. -/
theorem BlockAt.append {p q : Position} {b : Block} {spans : List Span} :
    BlockAt p b spans q → BlockAt (p.append text) b spans (q.append text)
  | .mk hleft hitems hright =>
    .mk (hleft.append_fixed text) (hitems.append (hright.rest_ne_nil Shape.solid_rightBrace))
      (hright.append_fixed text)

theorem StatementsAt.append {p q : Position} {items : List Stmt} {spans : List Span} :
    StatementsAt p items spans q → q.rest ≠ [] →
      StatementsAt (p.append text) items spans (q.append text)
  | .none, _ => .none
  | .more hitem hmore, hq =>
    .more (hitem.append (hmore.lays.rest_ne_nil hq)) (hmore.append hq)

theorem StatementAt.append {p q : Position} {s : Stmt} {spans : List Span} :
    StatementAt p s spans q → q.rest ≠ [] → StatementAt (p.append text) s spans (q.append text)
  | .block hbody, _ => .block hbody.append
  | .ifThen hif hcondition hyes, _ => by
    have hthen := hyes.rest_ne_nil
    exact .ifThen (hif.append (Shape.peeks_keyword _) (hcondition.lays.rest_ne_nil hthen) text)
      (hcondition.append text hthen) hyes.append
  | .ifElse hif hcondition hyes helse hno, _ => by
    have hthen := hyes.rest_ne_nil
    exact .ifElse (hif.append (Shape.peeks_keyword _) (hcondition.lays.rest_ne_nil hthen) text)
      (hcondition.append text hthen) hyes.append
      (helse.append (Shape.peeks_keyword _) hno.rest_ne_nil text) hno.append
  | .ret hmarker hvalue, hq => .ret (hmarker.append_fixed text) (hvalue.append text hq)
  | .directive hname hbang hargs, hq =>
    .directive (hname.append Shape.peeks_directiveName (hbang.rest_ne_nil Shape.solid_bang) text)
      (hbang.append_fixed text) (hargs.append text hq)

end

theorem DeclarationAt.append {d : FunctionDecl} (h : DeclarationAt p d spans q) :
    DeclarationAt (p.append text) d spans (q.append text) := by
  cases h with
  | mk hname hs hbody =>
      have hopens := rest_ne_nil_of_next? hs.next?
      exact .mk (hname.append Shape.peeks_identifier hopens text)
        (hs.append text hbody.rest_ne_nil) (hbody.append text)

theorem DeclarationsAt.append {decls : List FunctionDecl} (h : DeclarationsAt p decls spans q) :
    DeclarationsAt (p.append text) decls spans (q.append text) := by
  induction h with
  | none => exact .none
  | more hdecl _ ih => exact .more (hdecl.append text) ih

end Derivation

end KestrelCompiler
