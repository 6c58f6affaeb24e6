import Mathlib.Data.List.Forall2
import KestrelCompiler.Proofs.Faults.Statement
import KestrelCompiler.Proofs.Likeness.Step

/-!
Trees that are lowered alike. They have the same shape, with the same words and numbers at possibly
other places, as far as their statements are live: whatever stands behind a closing statement does
not matter.
-/

namespace KestrelCompiler

open Ir (Value)
open Lower

/-- The same word; faults at its beginnings correspond. -/
structure Token.Like (E : LoweringFault → LoweringFault → Prop) (t t' : Token) : Prop where
  text : t'.text = t.text
  start : SameAt E t.span.start t'.span.start

/-- The same expression, save for how numbers are written. -/
inductive Expr.Like (E : LoweringFault → LoweringFault → Prop) : Expr → Expr → Prop
  | number {t t' : Token} : numberValue? t'.text.toList = numberValue? t.text.toList →
    E ⟨.invalidNumber t.text, t.span.start⟩ ⟨.invalidNumber t'.text, t'.span.start⟩ →
    SameAt E t.span.start t'.span.start → Like E (.number t) (.number t')
  | string {t t' : Token} : t.Like E t' → Like E (.string t) (.string t')
  | name {t t' : Token} : t.Like E t' → Like E (.name t) (.name t')
  | binary (operation : Operation) {left left' right right' : Expr} {op op' : Token} :
    Like E left left' → op'.text = op.text → Like E right right' →
    Like E (.binary operation left op right) (.binary operation left' op' right')

mutual

inductive Block.Like (E : LoweringFault → LoweringFault → Prop) : Block → Block → Prop
  | mk {left left' right right' : Token} {items items' : List Stmt} :
    ItemsLike E items items' → Block.Like E (.mk left items right) (.mk left' items' right')

inductive ItemsLike (E : LoweringFault → LoweringFault → Prop) : List Stmt → List Stmt → Prop
  | nil : ItemsLike E [] []
  | cons {item item' : Stmt} {rest rest' : List Stmt} :
    Stmt.Like E item item' → ItemsLike E rest rest' → ItemsLike E (item :: rest) (item' :: rest')
  | closed {item item' : Stmt} {rest rest' : List Stmt} :
    Stmt.Like E item item' → item.closes = true → ItemsLike E (item :: rest) (item' :: rest')

inductive Stmt.Like (E : LoweringFault → LoweringFault → Prop) : Stmt → Stmt → Prop
  | block {body body' : Block} : Block.Like E body body' → Stmt.Like E (.block body) (.block body')
  | ifThen {keyword keyword' : Token} {condition condition' : Expr} {yes yes' : Block} :
    Expr.Like E condition condition' → Block.Like E yes yes' →
    Stmt.Like E (.ifThen keyword condition yes) (.ifThen keyword' condition' yes')
  | ifElse {keyword keyword' : Token} {condition condition' : Expr} {yes yes' no no' : Block} :
    Expr.Like E condition condition' → Block.Like E yes yes' → Block.Like E no no' →
    Stmt.Like E (.ifElse keyword condition yes no) (.ifElse keyword' condition' yes' no')
  | ret {marker marker' : Token} {value value' : Expr} :
    SameAt E marker.span.start marker'.span.start → Expr.Like E value value' →
    Stmt.Like E (.ret marker value) (.ret marker' value')
  | directive {name name' bang bang' : Token} {args args' : List Token} :
    name.Like E name' → List.Forall₂ (Token.Like E) args args' →
    Stmt.Like E (.directive name bang args) (.directive name' bang' args')

end

variable {E : LoweringFault → LoweringFault → Prop} {width : Nat} {b b' : Build}

theorem Token.Like.refl (hE : ∀ f, E f f) (t : Token) : t.Like E t :=
  ⟨rfl, fun _ => hE _⟩

theorem Expr.Like.refl (hE : ∀ f, E f f) (e : Expr) : e.Like E e := by
  induction e with
  | number token => exact .number rfl (hE _) fun _ => hE _
  | string token => exact .string (.refl hE token)
  | name token => exact .name (.refl hE token)
  | binary operation left op right ihl ihr => exact .binary operation ihl rfl ihr

namespace Expr.Like

theorem start {e e' : Expr} (h : e.Like E e') : SameAt E e.span.start e'.span.start := by
  induction h with
  | number _ _ h => exact h
  | string h | name h => exact h.start
  | binary _ _ _ _ ihl _ => exact ihl

theorem likens_integerWidth (v : Value) {op op' : Token} (hop : op'.text = op.text)
    {l l' : Location} (h : SameAt E l l') :
    Likens E (integerWidth v op l) (integerWidth v op' l') := by
  unfold integerWidth
  rw [hop]
  split
  · exact likens_pure _
  · exact likens_fail (h _)

theorem lower {e e' : Expr} (h : e.Like E e') : Likens E (e.lower width) (e'.lower width) := by
  induction h with
  | number hvalue hfault _ =>
      unfold Expr.lower
      rw [hvalue]
      split
      · exact likens_pure _
      · exact likens_fail hfault
  | string h =>
      unfold Expr.lower
      rw [h.text]
      exact likens_bind (likens_addString _) fun index => likens_push _
  | name h =>
      unfold Expr.lower
      rw [h.text]
      refine likens_bind likens_draft fun d => ?_
      split
      · exact likens_pure _
      · exact likens_fail (h.start _)
  | binary operation hl hop hr ihl ihr =>
      refine likens_bind ihl fun l => likens_bind ihr fun r => ?_
      refine likens_bind (likens_integerWidth l hop hl.start) fun m => ?_
      refine likens_bind (likens_integerWidth r hop hr.start) fun n => ?_
      refine likens_bind (likens_coerce hl.start l _) fun l' => ?_
      refine likens_bind (likens_coerce hr.start r _) fun r' => ?_
      cases operation <;> exact likens_push _

end Expr.Like

section Directive

variable {args args' : List Token}

theorem likens_bindNames (h : List.Forall₂ (Token.Like E) args args')
    (parameters : List (Ir.Parameter × Nat)) :
    Likens E (bindNames (args.zip parameters)) (bindNames (args'.zip parameters)) := by
  induction h generalizing parameters with
  | nil => exact likens_pure ()
  | cons hname _ ih =>
      cases parameters with
      | nil => exact likens_pure ()
      | cons entry parameters =>
          rw [List.zip_cons_cons, List.zip_cons_cons, bindNames, bindNames, hname.text]
          refine likens_bind likens_draft fun d => likens_ite (likens_fail (hname.start _)) ?_
          exact likens_bind (likens_update _) fun _ => ih parameters

theorem likens_lowerDirective {name name' : Token} (hname : name.Like E name')
    (h : List.Forall₂ (Token.Like E) args args') :
    Likens E (lowerDirective name args) (lowerDirective name' args') := by
  unfold lowerDirective
  rw [hname.text]
  refine likens_ite (likens_fail (hname.start _)) (likens_bind likens_draft fun d => ?_)
  dsimp only
  rw [← h.length_eq]
  rcases Nat.lt_or_ge d.parameters.length args.length with hmore | hfits
  · have hmore' : d.parameters.length < args'.length := h.length_eq ▸ hmore
    rw [List.getElem?_eq_getElem hmore, List.getElem?_eq_getElem hmore']
    exact likens_fail ((h.get hmore hmore').start _)
  · rw [List.getElem?_eq_none hfits, List.getElem?_eq_none (h.length_eq ▸ hfits)]
    exact likens_bindNames h _

end Directive

theorem likens_lowerReturn {marker marker' : Token} {value value' : Expr}
    (hmarker : SameAt E marker.span.start marker'.span.start) (h : value.Like E value') :
    Likens E (lowerReturn width marker value) (lowerReturn width marker' value') := by
  refine likens_bind likens_draft fun d => likens_ite (likens_fail (hmarker _)) ?_
  refine likens_bind h.lower fun v => likens_bind (likens_coerce h.start v _) fun v' => ?_
  exact likens_close _

theorem Build.isClosed_noting {closed : Bool} (h : b.draft.isClosed = closed)
    {events : List Event} : (b.noting events).draft.isClosed = closed :=
  h

section Closing

mutual

theorem LowersBlock.isClosed {block : Block} {b b' : Build} : LowersBlock width block b b' →
    b.draft.current < b.draft.blocks.length → block.closes = true → b'.draft.isClosed = true
  | .mk hitems, hinside, hcloses => hitems.isClosed hinside hcloses

theorem LowersItems.isClosed {items : List Stmt} {b b' : Build} : LowersItems width items b b' →
    b.draft.current < b.draft.blocks.length → itemsClose items = true → b'.draft.isClosed = true
  | .unreachable _ hclosed, _, _ => hclosed
  | @LowersItems.cons _ item rest _ b₁ _ hopen hitem hrest, hinside, hcloses => by
    rw [itemsClose, Bool.or_eq_true] at hcloses
    have hinside₁ := (hitem.extends ⟨hinside, hopen⟩).inside
    rcases hcloses with hcloses | hcloses
    · have hclosed := hitem.isClosed ⟨hinside, hopen⟩ hcloses
      rw [(hrest.of_closed hclosed).1]
      exact hclosed
    · exact hrest.isClosed hinside₁ hcloses

/-- A closing statement closes the current block. -/
theorem Lowers.isClosed {stmt : Stmt} {b b' : Build} : Lowers width stmt b b' →
    b.draft.IsOpen → stmt.closes = true → b'.draft.isClosed = true
  | .block hbody, hopen, hcloses => hbody.isClosed hopen.inside hcloses
  | .ret _ _ _ _ _, hopen, _ => Draft.isClosed_close (Draft.isOpen_append hopen _).inside _
  | .ifThen _ _ _ _ _ _, _, hcloses | .ifElse _ _ _ _ _ _ _, _, hcloses
  | .directive _, _, hcloses => by
    rw [Stmt.closes] at hcloses
    cases hcloses

end

theorem alike_lowerItems_of_closed (block block' : Location) (items items' : List Stmt)
    (hclosed : b.draft.isClosed = true) (events : List Event) :
    Alike E (lowerItems width block items b)
      (lowerItems width block' items' (b.noting events)) := by
  obtain ⟨events₁, h⟩ := exists_lowerItems_of_closed width block items hclosed
  obtain ⟨events₂, h'⟩ :=
    exists_lowerItems_of_closed (b := b.noting events) width block' items' hclosed
  rw [h, h']
  exact .mk (b.noting events₁) events₂ (.go ())

end Closing

/-- A condition is lowered and tested before what depends on it. -/
theorem alike_condition {condition condition' : Expr} (h : condition.Like E condition')
    {next next' : Value → Lower Unit} (events : List Event)
    (hnext : ∀ c code test texts v events,
      Compiles width b.draft.bindings b.draft.count b.strings.length condition code texts v →
      Tests (b.draft.count + code.length) v test c →
      Alike E (next c (b.emit (code ++ test) texts))
        (next' c ((b.emit (code ++ test) texts).noting events))) :
    Alike E ((do
      let c ← truth (← condition.lower width) condition.span.start
      next c : Lower Unit) b) ((do
      let c ← truth (← condition'.lower width) condition'.span.start
      next' c : Lower Unit) (b.noting events)) := by
  refine (h.lower b events).bind fun v b₁ events₁ hrun => ?_
  obtain ⟨code, texts, hcode, rfl⟩ := Expr.compiles_of_lower hrun
  refine (likens_truth h.start v _ events₁).bind fun c b₂ events₂ hrun => ?_
  obtain ⟨test, htest, rfl⟩ := tests_of_truth hrun
  rw [Build.emit_emit, List.append_nil]
  exact hnext c code test texts v events₂ hcode htest

mutual

theorem Block.Like.alike {block block' : Block} {b : Build} (events : List Event) :
    Block.Like E block block' → b.draft.IsOpen →
      Alike E (block.lower width b) (block'.lower width (b.noting events))
  | .mk hitems, hopen => hitems.alike _ _ events hopen

theorem ItemsLike.alike {items items' : List Stmt} {b : Build} (block block' : Location)
    (events : List Event) : ItemsLike E items items' → b.draft.IsOpen →
      Alike E (lowerItems width block items b) (lowerItems width block' items' (b.noting events))
  | .nil, _ => likens_pure () b events
  | .cons hitem hrest, hopen => by
    rw [lowerItems_of_open hopen.not_closed,
      lowerItems_of_open (Build.isClosed_noting hopen.not_closed)]
    refine (hitem.alike events hopen).bind fun _ b₁ events₁ hrun => ?_
    cases hclosed : b₁.draft.isClosed with
    | true => exact alike_lowerItems_of_closed block block' _ _ hclosed events₁
    | false =>
        have hinside := ((lowers_of_lower _ hopen.not_closed hrun).extends hopen).inside
        exact hrest.alike block block' events₁ ⟨hinside, hclosed⟩
  | .closed hitem hcloses, hopen => by
    rw [lowerItems_of_open hopen.not_closed,
      lowerItems_of_open (Build.isClosed_noting hopen.not_closed)]
    refine (hitem.alike events hopen).bind fun _ b₁ events₁ hrun => ?_
    have hclosed := (lowers_of_lower _ hopen.not_closed hrun).isClosed hopen hcloses
    exact alike_lowerItems_of_closed block block' _ _ hclosed events₁

theorem Stmt.Like.alike {stmt stmt' : Stmt} {b : Build} (events : List Event) :
    Stmt.Like E stmt stmt' → b.draft.IsOpen →
      Alike E (stmt.lower width b) (stmt'.lower width (b.noting events))
  | .block hbody, hopen => hbody.alike events hopen
  | .ifThen hcondition hyes, hopen => by
    refine alike_condition hcondition events fun c code test texts v events₁ he htest => ?_
    have hcode := Draft.isOpen_append hopen (code ++ test)
    rw [forkThen_eq c _ hcode.not_closed, forkThen_eq c _ (Build.isClosed_noting hcode.not_closed)]
    have hfork := (Draft.extends_forkThen hcode c).2.isOpen
    exact Alike.bind (hyes.alike events₁ hfork) fun _ b₁ events₂ _ => likens_update _ b₁ events₂
  | @Stmt.Like.ifElse _ _ _ _ _ yes _ _ _ hcondition hyes hno, hopen => by
    refine alike_condition hcondition events fun c code test texts v events₁ he htest => ?_
    have hcode := Draft.isOpen_append hopen (code ++ test)
    rw [forkElse_eq c _ _ hcode.not_closed,
      forkElse_eq c _ _ (Build.isClosed_noting hcode.not_closed)]
    have hfork := (Draft.extends_forkElse hcode c).2.isOpen
    refine Alike.bind (hyes.alike events₁ hfork) fun _ b₁ events₂ hrun => ?_
    have hlowers := lowersBlock_of_lower yes hrun
    have hleave := (Draft.extends_leave_yes hcode (hlowers.extends hfork.inside)).2.isOpen
    rw [update_bind, update_bind]
    exact Alike.bind (hno.alike events₂ hleave) fun _ b₂ events₃ _ => likens_update _ b₂ events₃
  | .ret hmarker hvalue, _ => likens_lowerReturn hmarker hvalue b events
  | .directive hname hargs, _ => likens_lowerDirective hname hargs b events

end

end KestrelCompiler
