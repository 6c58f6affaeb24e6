import KestrelCompiler.Proofs.Outline.Tree
import KestrelCompiler.Proofs.Spacing.Program

/-!
What an outline tells. It shows everything of a program that is read but the places of its tokens
and which of its string literals have escapes: delimiters are left out, but those are the same
texts in all programs.
-/

namespace KestrelCompiler

open Outline KestrelCompiler.Derivation

/-- The token without its place, and as if no escape had been in it. -/
def Token.bare (t : Token) : Token :=
  { t.unplaced with decoded := false }

/-- The tree up to the places of its tokens and the escapes in its string literals. -/
def Program.bare (p : Program) : Program :=
  ⟨p.declarations.map (·.mapTokens Token.bare)⟩

theorem Token.bare_eq {t t' : Token} (h : t.text = t'.text) : t.bare = t'.bare := by
  rw [bare, bare, unplaced, unplaced, h]

section Delimiters

mutual

/-- The stars and parentheses of a type have their texts. -/
inductive TypeExpr.Delimited : TypeExpr → Prop
  | named (name : Token) : TypeExpr.Delimited (.named name)
  | pointer {inner : TypeExpr} {star : Token} : TypeExpr.Delimited inner → star.text = "*" →
    TypeExpr.Delimited (.pointer inner star)
  | function {args : List TypeExpr} {ret : Option TypeExpr} {left right : Token} :
    TypesDelimited args → ResultDelimited ret → left.text = "(" → right.text = ")" →
    TypeExpr.Delimited (.function args ret left right)

inductive TypesDelimited : List TypeExpr → Prop
  | nil : TypesDelimited []
  | cons {type : TypeExpr} {rest : List TypeExpr} : TypeExpr.Delimited type →
    TypesDelimited rest → TypesDelimited (type :: rest)

inductive ResultDelimited : Option TypeExpr → Prop
  | none : ResultDelimited none
  | some {type : TypeExpr} : TypeExpr.Delimited type → ResultDelimited (some type)

end

mutual

/-- The delimiters of a block, and of the statements in it, have their texts. -/
inductive Block.Delimited : Block → Prop
  | mk {left right : Token} {items : List Stmt} : left.text = "\x7b" → right.text = "\x7d" →
    ItemsDelimited items → Block.Delimited (.mk left items right)

inductive ItemsDelimited : List Stmt → Prop
  | nil : ItemsDelimited []
  | cons {item : Stmt} {rest : List Stmt} : Stmt.Delimited item → ItemsDelimited rest →
    ItemsDelimited (item :: rest)

inductive Stmt.Delimited : Stmt → Prop
  | block {body : Block} : Block.Delimited body → Stmt.Delimited (.block body)
  | ifThen {keyword : Token} {condition : Expr} {yes : Block} : keyword.text = "if" →
    Block.Delimited yes → Stmt.Delimited (.ifThen keyword condition yes)
  | ifElse {keyword : Token} {condition : Expr} {yes no : Block} : keyword.text = "if" →
    Block.Delimited yes → Block.Delimited no → Stmt.Delimited (.ifElse keyword condition yes no)
  | ret {marker : Token} {value : Expr} : marker.text = ":" → Stmt.Delimited (.ret marker value)
  | directive {name bang : Token} {args : List Token} : bang.text = "!" →
    Stmt.Delimited (.directive name bang args)

end

structure FunctionDecl.Delimited (d : FunctionDecl) : Prop where
  signature : d.signature.toType.Delimited
  body : d.body.Delimited

variable {p q : Position} {spans : List Span}

theorem Position.Reads.text_fixed {text : String} {t : Token}
    (h : Position.Reads (.fixed text) p t q) : t.text = text := by
  obtain ⟨word, rfl, -, htext, -⟩ := h
  rw [htext, String.ofList_toList]

theorem Position.Reads.text_keyword {text : String} {t : Token}
    (h : Position.Reads (.keyword text) p t q) : t.text = text := by
  obtain ⟨word, ⟨rfl, -⟩, -, htext, -⟩ := h
  rw [htext, String.ofList_toList]

theorem Derivation.Stars.delimited {inner type : TypeExpr} (h : Stars inner p type spans q)
    (hinner : inner.Delimited) : type.Delimited := by
  induction h with
  | none => exact hinner
  | star hstar _ ih => exact ih (.pointer hinner hstar.text_fixed)

mutual

theorem Derivation.TypeAt.delimited {type : TypeExpr} {p q : Position} {spans : List Span} :
    TypeAt p type spans q → type.Delimited
  | .named _ hstars => hstars.delimited (.named _)
  | .function hsignature => hsignature.delimited

theorem Derivation.SignatureAt.delimited {s : Signature} {p q : Position} {spans : List Span} :
    SignatureAt p s spans q → s.toType.Delimited
  | .mk hleft hargs hright hret =>
    .function hargs.delimited hret.delimited hleft.text_fixed hright.text_fixed

theorem Derivation.TypesAt.delimited {types : List TypeExpr} {p q : Position} {spans : List Span} :
    TypesAt p types spans q → TypesDelimited types
  | .none => .nil
  | .last htype => .cons htype.delimited .nil
  | .more htype _ hmore => .cons htype.delimited hmore.delimited

theorem Derivation.ResultAt.delimited {ret : Option TypeExpr} {p q : Position}
    {spans : List Span} : ResultAt p ret spans q → ResultDelimited ret
  | .none => .none
  | .some htype => .some htype.delimited

end

mutual

theorem Derivation.BlockAt.delimited {block : Block} {p q : Position} {spans : List Span} :
    BlockAt p block spans q → block.Delimited
  | .mk hleft hitems hright => .mk hleft.text_fixed hright.text_fixed hitems.delimited

theorem Derivation.StatementsAt.delimited {items : List Stmt} {p q : Position}
    {spans : List Span} : StatementsAt p items spans q → ItemsDelimited items
  | .none => .nil
  | .more hitem hmore => .cons hitem.delimited hmore.delimited

theorem Derivation.StatementAt.delimited {item : Stmt} {p q : Position} {spans : List Span} :
    StatementAt p item spans q → item.Delimited
  | .block hbody => .block hbody.delimited
  | .ifThen hkeyword _ hyes => .ifThen hkeyword.text_keyword hyes.delimited
  | .ifElse hkeyword _ hyes _ hno =>
    .ifElse hkeyword.text_keyword hyes.delimited hno.delimited
  | .ret hmarker _ => .ret hmarker.text_fixed
  | .directive _ hbang _ => .directive hbang.text_fixed

end

theorem Derivation.DeclarationsAt.delimited {decls : List FunctionDecl}
    (h : DeclarationsAt p decls spans q) : ∀ d ∈ decls, d.Delimited := by
  induction h with
  | none => exact List.forall_mem_nil _
  | more hd _ ih =>
      refine List.forall_mem_cons.mpr ⟨?_, ih⟩
      cases hd with
      | mk _ hs hbody => exact ⟨hs.delimited, hbody.delimited⟩

end Delimiters

section Parts

namespace Outline

variable {name : String}

theorem quoted_inj {a b : String} (h : quoted name a = quoted name b) : a = b := by
  have hline : name ++ ": " ++ Text.quote a = name ++ ": " ++ Text.quote b :=
    (Outline.entry.inj h).1
  have hlists := congrArg String.toList hline
  rw [String.toList_append, String.toList_append (t := Text.quote b)] at hlists
  exact Text.quote_inj (String.toList_injective (List.append_cancel_left hlists))

theorem part_inj {o o' : Outline} (h : part name o = part name o') : o = o' :=
  List.singleton_inj.mp (Outline.entry.inj h).2

/-- An empty list and one with items are told apart by what belongs to them. -/
theorem list_inj {items items' : List Outline} (h : list name items = list name items') :
    items = items' := by
  cases items <;> cases items' <;> simp_all [list, leaf]

theorem signature_inj {args args' : List Outline} {ret ret' : Option Outline}
    (h : signature args ret = signature args' ret') : args = args' ∧ ret = ret' := by
  obtain ⟨hargs, hret⟩ := List.cons.inj (Outline.entry.inj h).2
  refine ⟨list_inj hargs, ?_⟩
  cases ret with
  | none =>
      cases ret' with
      | none => rfl
      | some ret' => cases hret
  | some ret =>
      cases ret' with
      | none => cases hret
      | some ret' => rw [part_inj (List.singleton_inj.mp hret)]

end Outline

end Parts

section Faithful

theorem TypeExpr.outline_function (args : List TypeExpr) (ret : Option TypeExpr)
    (left right : Token) : (TypeExpr.function args ret left right).outline =
      entry "FunctionType" [part "signature" (signature (outlines args) (ret.map outline))] := by
  cases ret <;> rw [TypeExpr.outline] <;> rfl

theorem TypeExpr.mapTokens_function (f : Token → Token) (args : List TypeExpr)
    (ret : Option TypeExpr) (left right : Token) :
    (TypeExpr.function args ret left right).mapTokens f =
      .function (mapTokensAll f args) (ret.map (·.mapTokens f)) (f left) (f right) := by
  cases ret <;> rw [TypeExpr.mapTokens] <;> rfl

mutual

theorem TypeExpr.bare_of_outline {t t' : TypeExpr} : t.Delimited → t'.Delimited →
    t.outline = t'.outline → t.mapTokens Token.bare = t'.mapTokens Token.bare
  | .named name, h', h => by
    cases h' with
    | named name' =>
        rw [TypeExpr.outline, TypeExpr.outline] at h
        have hname := quoted_inj (List.singleton_inj.mp (Outline.entry.inj h).2)
        rw [TypeExpr.mapTokens, TypeExpr.mapTokens, Token.bare_eq hname]
    | pointer => simp [TypeExpr.outline] at h
    | function => simp [TypeExpr.outline, TypeExpr.outline_function] at h
  | .pointer hinner hstar, h', h => by
    cases h' with
    | pointer hinner' hstar' =>
        rw [TypeExpr.outline, TypeExpr.outline] at h
        have hsame := part_inj (List.singleton_inj.mp (Outline.entry.inj h).2)
        rw [TypeExpr.mapTokens, TypeExpr.mapTokens, TypeExpr.bare_of_outline hinner hinner' hsame,
          Token.bare_eq (hstar.trans hstar'.symm)]
    | named => simp [TypeExpr.outline] at h
    | function => simp [TypeExpr.outline, TypeExpr.outline_function] at h
  | .function hargs hret hleft hright, h', h => by
    rw [TypeExpr.outline_function] at h
    cases h' with
    | function hargs' hret' hleft' hright' =>
        rw [TypeExpr.outline_function] at h
        obtain ⟨hsame, hsame'⟩ :=
          signature_inj (part_inj (List.singleton_inj.mp (Outline.entry.inj h).2))
        rw [TypeExpr.mapTokens_function, TypeExpr.mapTokens_function,
          TypesDelimited.bare_of_outlines hargs hargs' hsame,
          ResultDelimited.bare_of_outline hret hret' hsame',
          Token.bare_eq (hleft.trans hleft'.symm), Token.bare_eq (hright.trans hright'.symm)]
    | named | pointer => simp [TypeExpr.outline] at h

theorem TypesDelimited.bare_of_outlines {ts ts' : List TypeExpr} : TypesDelimited ts →
    TypesDelimited ts' → TypeExpr.outlines ts = TypeExpr.outlines ts' →
      TypeExpr.mapTokensAll Token.bare ts = TypeExpr.mapTokensAll Token.bare ts'
  | .nil, .nil, _ => rfl
  | .cons htype hrest, .cons htype' hrest', h => by
    rw [TypeExpr.outlines, TypeExpr.outlines] at h
    obtain ⟨hsame, hmore⟩ := List.cons.inj h
    rw [TypeExpr.mapTokensAll, TypeExpr.mapTokensAll, TypeExpr.bare_of_outline htype htype' hsame,
      TypesDelimited.bare_of_outlines hrest hrest' hmore]

theorem ResultDelimited.bare_of_outline {ret ret' : Option TypeExpr} : ResultDelimited ret →
    ResultDelimited ret' → ret.map TypeExpr.outline = ret'.map TypeExpr.outline →
      ret.map (·.mapTokens Token.bare) = ret'.map (·.mapTokens Token.bare)
  | .none, .none, _ => rfl
  | .some htype, .some htype', h => 
    congrArg some (TypeExpr.bare_of_outline htype htype' (Option.some.inj h))

end

theorem Signature.bare_of_outline {s s' : Signature} (hs : s.toType.Delimited)
    (hs' : s'.toType.Delimited) (h : s.outline = s'.outline) :
    s.mapTokens Token.bare = s'.mapTokens Token.bare := by
  obtain ⟨args, ret, left, right⟩ := s
  obtain ⟨args', ret', left', right'⟩ := s'
  cases hs with
  | function hargs hret hleft hright =>
      cases hs' with
      | function hargs' hret' hleft' hright' =>
          obtain ⟨hsame, hsame'⟩ := signature_inj h
          have hmap := hargs.bare_of_outlines hargs' hsame
          rw [TypeExpr.mapTokensAll_eq_map, TypeExpr.mapTokensAll_eq_map] at hmap
          rw [Signature.mapTokens, Signature.mapTokens, hmap, hret.bare_of_outline hret' hsame',
            Token.bare_eq (hleft.trans hleft'.symm), Token.bare_eq (hright.trans hright'.symm)]

theorem Operation.label_inj {o o' : Operation} (h : o.label = o'.label) : o = o' := by
  revert h
  cases o <;> cases o' <;> decide

theorem Token.bare_of_entry {line : String} {t t' : Token}
    (h : entry line [quoted "token" t.text] = entry line [quoted "token" t'.text]) :
    t.bare = t'.bare :=
  Token.bare_eq (quoted_inj (List.singleton_inj.mp (Outline.entry.inj h).2))

theorem Expr.bare_of_outline {e e' : Expr} (h : e.outline = e'.outline) :
    e.mapTokens Token.bare = e'.mapTokens Token.bare := by
  induction e generalizing e' with
  | number token =>
      cases e' with
      | number token' => rw [mapTokens, mapTokens, Token.bare_of_entry h]
      | binary operation => cases operation <;> simp [outline, Outline.binary, Operation.label] at h
      | string | name => simp [outline] at h
  | string token =>
      cases e' with
      | string token' => rw [mapTokens, mapTokens, Token.bare_of_entry h]
      | binary operation => cases operation <;> simp [outline, Outline.binary, Operation.label] at h
      | number | name => simp [outline] at h
  | name token =>
      cases e' with
      | name token' => rw [mapTokens, mapTokens, Token.bare_of_entry h]
      | binary operation => cases operation <;> simp [outline, Outline.binary, Operation.label] at h
      | number | string => simp [outline] at h
  | binary operation left op right ihl ihr =>
      cases e' with
      | binary operation' left' op' right' =>
          obtain ⟨hlabel, hparts⟩ := Outline.entry.inj h
          obtain ⟨hleft, hparts⟩ := List.cons.inj hparts
          obtain ⟨hop, hparts⟩ := List.cons.inj hparts
          obtain rfl := Operation.label_inj hlabel
          rw [mapTokens, mapTokens, ihl (part_inj hleft), Token.bare_eq (quoted_inj hop),
            ihr (part_inj (List.singleton_inj.mp hparts))]
      | _ => cases operation <;> simp [outline, Outline.binary, Operation.label] at h

theorem names_bare_of_leaves {args args' : List Token}
    (h : (args.map fun arg => leaf (Text.quote arg.text)) =
      args'.map fun arg => leaf (Text.quote arg.text)) :
    args.map Token.bare = args'.map Token.bare := by
  induction args generalizing args' with
  | nil => rw [List.map_eq_nil_iff.mp h.symm]
  | cons arg rest ih =>
      cases args' with
      | nil => cases h
      | cons arg' rest' =>
          obtain ⟨harg, hrest⟩ := List.cons.inj h
          have hquote : Text.quote arg.text = Text.quote arg'.text := (Outline.entry.inj harg).1
          rw [List.map_cons, List.map_cons, Token.bare_eq (Text.quote_inj hquote), ih hrest]

mutual

theorem Block.bare_of_outline {block block' : Block} : block.Delimited → block'.Delimited →
    block.outline = block'.outline → block.mapTokens Token.bare = block'.mapTokens Token.bare
  | .mk hleft hright hitems, .mk hleft' hright' hitems', h => by
    rw [Block.outline, Block.outline] at h
    have hsame := list_inj (List.singleton_inj.mp (Outline.entry.inj h).2)
    rw [Block.mapTokens, Block.mapTokens, hitems.bare_of_outlines hitems' hsame,
      Token.bare_eq (hleft.trans hleft'.symm), Token.bare_eq (hright.trans hright'.symm)]

theorem ItemsDelimited.bare_of_outlines {items items' : List Stmt} : ItemsDelimited items →
    ItemsDelimited items' → Stmt.outlines items = Stmt.outlines items' →
      Stmt.mapTokensAll Token.bare items = Stmt.mapTokensAll Token.bare items'
  | .nil, .nil, _ => rfl
  | .cons hitem hrest, .cons hitem' hrest', h => by
    rw [Stmt.outlines, Stmt.outlines] at h
    obtain ⟨hsame, hmore⟩ := List.cons.inj h
    rw [Stmt.mapTokensAll, Stmt.mapTokensAll, Stmt.bare_of_outline hitem hitem' hsame,
      ItemsDelimited.bare_of_outlines hrest hrest' hmore]

theorem Stmt.bare_of_outline {item item' : Stmt} : item.Delimited → item'.Delimited →
    item.outline = item'.outline → item.mapTokens Token.bare = item'.mapTokens Token.bare
  | .block hbody, h', h => by
    cases h' with
    | block hbody' =>
        rw [Stmt.outline, Stmt.outline] at h
        rw [Stmt.mapTokens, Stmt.mapTokens, Block.bare_of_outline hbody hbody' h]
    | _ =>
        cases hbody
        simp [Stmt.outline, Block.outline] at h
  | .ifThen hkeyword hyes, h', h => by
    cases h' with
    | ifThen hkeyword' hyes' =>
        rw [Stmt.outline, Stmt.outline] at h
        obtain ⟨hcondition, hparts⟩ := List.cons.inj (Outline.entry.inj h).2
        rw [Stmt.mapTokens, Stmt.mapTokens, Expr.bare_of_outline (part_inj hcondition),
          Token.bare_eq (hkeyword.trans hkeyword'.symm),
          Block.bare_of_outline hyes hyes' (part_inj (List.singleton_inj.mp hparts))]
    | block hbody' =>
        cases hbody'
        simp [Stmt.outline, Block.outline] at h
    | _ => simp [Stmt.outline] at h
  | .ifElse hkeyword hyes hno, h', h => by
    cases h' with
    | ifElse hkeyword' hyes' hno' =>
        rw [Stmt.outline, Stmt.outline] at h
        obtain ⟨hcondition, hparts⟩ := List.cons.inj (Outline.entry.inj h).2
        obtain ⟨hsame, hparts⟩ := List.cons.inj hparts
        rw [Stmt.mapTokens, Stmt.mapTokens, Expr.bare_of_outline (part_inj hcondition),
          Token.bare_eq (hkeyword.trans hkeyword'.symm),
          Block.bare_of_outline hyes hyes' (part_inj hsame),
          Block.bare_of_outline hno hno' (part_inj (List.singleton_inj.mp hparts))]
    | block hbody' =>
        cases hbody'
        simp [Stmt.outline, Block.outline] at h
    | _ => simp [Stmt.outline] at h
  | .ret hmarker, h', h => by
    cases h' with
    | ret hmarker' =>
        rw [Stmt.outline, Stmt.outline] at h
        have hvalue := part_inj (List.singleton_inj.mp (Outline.entry.inj h).2)
        rw [Stmt.mapTokens, Stmt.mapTokens, Expr.bare_of_outline hvalue,
          Token.bare_eq (hmarker.trans hmarker'.symm)]
    | block hbody' =>
        cases hbody'
        simp [Stmt.outline, Block.outline] at h
    | _ => simp [Stmt.outline] at h
  | .directive hbang, h', h => by
    cases h' with
    | directive hbang' =>
        rw [Stmt.outline, Stmt.outline] at h
        obtain ⟨hname, hparts⟩ := List.cons.inj (Outline.entry.inj h).2
        have hargs := names_bare_of_leaves (list_inj (List.singleton_inj.mp hparts))
        rw [Stmt.mapTokens, Stmt.mapTokens, Token.bare_eq (quoted_inj hname), hargs,
          Token.bare_eq (hbang.trans hbang'.symm)]
    | block hbody' =>
        cases hbody'
        simp [Stmt.outline, Block.outline] at h
    | _ => simp [Stmt.outline] at h

end

theorem FunctionDecl.bare_of_outline {d d' : FunctionDecl} (hd : d.Delimited)
    (hd' : d'.Delimited) (h : d.outline = d'.outline) :
    d.mapTokens Token.bare = d'.mapTokens Token.bare := by
  obtain ⟨hname, hparts⟩ := List.cons.inj (Outline.entry.inj h).2
  obtain ⟨hsignature, hparts⟩ := List.cons.inj hparts
  rw [mapTokens, mapTokens, Token.bare_eq (quoted_inj hname),
    Signature.bare_of_outline hd.signature hd'.signature (part_inj hsignature),
    Block.bare_of_outline hd.body hd'.body (part_inj (List.singleton_inj.mp hparts))]

theorem decls_bare_of_outlines {decls decls' : List FunctionDecl}
    (hd : ∀ d ∈ decls, d.Delimited) (hd' : ∀ d ∈ decls', d.Delimited)
    (h : decls.map FunctionDecl.outline = decls'.map FunctionDecl.outline) :
    decls.map (·.mapTokens Token.bare) = decls'.map (·.mapTokens Token.bare) := by
  induction decls generalizing decls' with
  | nil => rw [List.map_eq_nil_iff.mp h.symm]
  | cons d rest ih =>
      cases decls' with
      | nil => cases h
      | cons d' rest' =>
          obtain ⟨hsame, hrest⟩ := List.cons.inj h
          rw [List.map_cons, List.map_cons,
            FunctionDecl.bare_of_outline (hd d List.mem_cons_self) (hd' d' List.mem_cons_self)
              hsame,
            ih (fun d h => hd d (List.mem_cons_of_mem _ h))
              (fun d h => hd' d (List.mem_cons_of_mem _ h)) hrest]

theorem Program.bare_of_outline {p p' : Program} (hp : ∀ d ∈ p.declarations, d.Delimited)
    (hp' : ∀ d ∈ p'.declarations, d.Delimited) (h : p.outline = p'.outline) : p.bare = p'.bare := by
  have hdecls := list_inj (List.singleton_inj.mp (Outline.entry.inj h).2)
  exact congrArg Program.mk (decls_bare_of_outlines hp hp' hdecls)

end Faithful

/-- Two sources are read to programs whose outlines have the same text. Then the programs are the
same, up to the places of their tokens and the escapes in their string literals. -/
theorem Program.bare_eq_of_render {source source' : String} {p p' : Program}
    (hparse : Program.parse source = .ok p) (hparse' : Program.parse source' = .ok p')
    (h : p.outline.render 0 = p'.outline.render 0) : p.bare = p'.bare := by
  obtain ⟨spans, q, hderives, -⟩ := Program.derives_of_parse hparse
  obtain ⟨spans', q', hderives', -⟩ := Program.derives_of_parse hparse'
  exact Program.bare_of_outline hderives.delimited hderives'.delimited
    (render_inj p.plain_outline p'.plain_outline h)

/-- The text of the outline of what is read. -/
def outlined (source : String) : Option String :=
  (Program.parse source).toOption.bind fun program => (program.outline.render 0).toOption

theorem parse_of_outlined {source shown : String} (h : outlined source = some shown) :
    ∃ program, Program.parse source = .ok program ∧ program.outline.render 0 = .ok shown := by
  unfold outlined at h
  cases hparse : Program.parse source with
  | error problem =>
      rw [hparse] at h
      cases h
  | ok program =>
      rw [hparse] at h
      cases hrender : program.outline.render 0 with
      | error problem =>
          change (program.outline.render 0).toOption = some shown at h
          rw [hrender] at h
          cases h
      | ok text =>
          change (program.outline.render 0).toOption = some shown at h
          rw [hrender] at h
          exact ⟨program, rfl, hrender.trans (congrArg _ (Option.some.inj h))⟩

/-- One tree, written close and with an escape, and over lines and without. -/
def closeSource : String :=
  "f()char*\x7b:\"a\\x\x7b62\x7d\"\x7d"

def openSource : String :=
  "f ( )\nchar *\n\x7b\n  : \"ab\"\n\x7d\n"

theorem Program.bare_eq_of_render_laid : ∃ p p' : Program,
    Program.parse closeSource = .ok p ∧ Program.parse openSource = .ok p' ∧
      p.outline.render 0 = p'.outline.render 0 ∧ p.bare = p'.bare := by
  have hsome : (outlined closeSource).isSome := by decide +kernel
  have hsame : outlined openSource = outlined closeSource := by decide +kernel
  obtain ⟨shown, hshown⟩ := Option.isSome_iff_exists.mp hsome
  obtain ⟨p, hparse, hp⟩ := parse_of_outlined hshown
  obtain ⟨p', hparse', hp'⟩ := parse_of_outlined (hsame.trans hshown)
  have h := hp.trans hp'.symm
  exact ⟨p, p', hparse, hparse', h, Program.bare_eq_of_render hparse hparse' h⟩

end KestrelCompiler
