import KestrelCompiler.Proofs.Grammar.Derivation

/-!
The names in a tree. Names of functions, and those that directives give to parameters, are
identifiers of the source. Nothing is said of the names in expressions: what they refer to has been
named before.
-/

namespace KestrelCompiler

def IsIdentifier (text : String) : Prop :=
  text.toList ≠ [] ∧ ∀ c ∈ text.toList, isIdentChar c = true

mutual

/-- All directives in a block have identifiers as their arguments. -/
def Block.Named : Block → Prop
  | .mk _ items _ => ItemsNamed items

def ItemsNamed : List Stmt → Prop
  | [] => True
  | item :: rest => item.Named ∧ ItemsNamed rest

def Stmt.Named : Stmt → Prop
  | .block body => body.Named
  | .ifThen _ _ yes => yes.Named
  | .ifElse _ _ yes no => yes.Named ∧ no.Named
  | .ret _ _ => True
  | .directive _ _ args => ∀ arg ∈ args, IsIdentifier arg.text

end

structure FunctionDecl.Named (d : FunctionDecl) : Prop where
  name : IsIdentifier d.name.text
  body : d.body.Named

namespace Derivation

theorem isIdentifier_of_reads {p q : Position} {t : Token}
    (h : Position.Reads Shape.identifier p t q) : IsIdentifier t.text := by
  obtain ⟨word, ⟨hne, hword, -⟩, -, htext, -⟩ := h
  rw [IsIdentifier, htext, String.toList_ofList]
  exact ⟨hne, hword⟩

theorem NamesAt.isIdentifier {p q : Position} {names : List Token} {spans : List Span}
    (h : NamesAt p names spans q) : ∀ name ∈ names, IsIdentifier name.text := by
  induction h with
  | last hname =>
      intro name hmem
      rw [List.mem_singleton.mp hmem]
      exact isIdentifier_of_reads hname
  | more hname _ _ ih =>
      intro name hmem
      rcases List.mem_cons.mp hmem with rfl | hmem
      · exact isIdentifier_of_reads hname
      · exact ih name hmem

mutual

theorem BlockAt.named {p q : Position} {block : Block} {spans : List Span} :
    BlockAt p block spans q → block.Named
  | .mk _ hitems _ => hitems.named

theorem StatementsAt.named {p q : Position} {items : List Stmt} {spans : List Span} :
    StatementsAt p items spans q → ItemsNamed items
  | .none => trivial
  | .more hitem hrest => ⟨hitem.named, hrest.named⟩

theorem StatementAt.named {p q : Position} {s : Stmt} {spans : List Span} :
    StatementAt p s spans q → s.Named
  | .block hbody => hbody.named
  | .ifThen _ _ hyes => hyes.named
  | .ifElse _ _ hyes _ hno => ⟨hyes.named, hno.named⟩
  | .ret _ _ => trivial
  | .directive _ _ hargs => hargs.isIdentifier

end

theorem DeclarationsAt.named {p q : Position} {declarations : List FunctionDecl}
    {spans : List Span} (h : DeclarationsAt p declarations spans q) :
    ∀ d ∈ declarations, d.Named := by
  induction h with
  | none =>
      intro d hmem
      cases hmem
  | more hd _ ih =>
      intro d hmem
      rcases List.mem_cons.mp hmem with rfl | hmem
      · cases hd with
        | mk hname _ hbody => exact ⟨isIdentifier_of_reads hname, hbody.named⟩
      · exact ih d hmem

theorem Derives.named {source : String} {program : Program} {spans : List Span}
    (h : Derives source program spans) : ∀ d ∈ program.declarations, d.Named := by
  obtain ⟨q, hdeclarations, -⟩ := h
  exact hdeclarations.named

end Derivation

end KestrelCompiler
