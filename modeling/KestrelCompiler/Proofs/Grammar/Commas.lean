import KestrelCompiler.Proofs.Grammar.Unambiguity
import Mathlib.Data.List.Chain

/-!
Commas. In the documented grammar they stand between the items of a list and nowhere else.
Directives are read by it. In a function type one more comma is read, right before the closing
parenthesis; without such commas what was read is the documented spelling of its tree.
-/

namespace KestrelCompiler

open Position

/-- The lexemes of types and directives that are no names. -/
def marks : List String := ["(", ")", ",", "*", "!"]

namespace Shape

/-- A mark or a name. -/
def markOrName : Shape := fun word after =>
  (∃ mark ∈ marks, word = mark.toList) ∨ identifier word after

theorem exists_char_of_mark {mark : String} (h : mark ∈ marks) :
    ∃ c, mark.toList = [c] ∧ isIdentChar c = false ∧ Text.isBlank c = false := by
  simp only [marks, List.mem_cons, List.not_mem_nil, or_false] at h
  rcases h with rfl | rfl | rfl | rfl | rfl <;> exact ⟨_, rfl, by decide, by decide⟩

theorem solid_markOrName : Solid markOrName := by
  rintro word after (⟨mark, hmark, rfl⟩ | hname)
  · obtain ⟨c, hc, -, hblank⟩ := exists_char_of_mark hmark
    exact ⟨c, [], hc, hblank⟩
  · exact solid_identifier word after hname

/-- No mark begins like a name. -/
theorem ne_of_mark {mark : String} {word after rest : List Char} (hmark : mark ∈ marks)
    (hname : identifier word after) : mark.toList ++ rest ≠ word ++ after := by
  obtain ⟨c, hc, hident, -⟩ := exists_char_of_mark hmark
  obtain ⟨first, more, rfl, hfirst⟩ := begins_identifier word after hname
  rw [hc]
  intro hsame
  obtain rfl := (List.cons.inj hsame).1
  rw [hfirst] at hident
  cases hident

theorem exact_markOrName : Exact markOrName := by
  rintro word after word' after' (⟨mark, hmark, rfl⟩ | hname) (⟨mark', hmark', rfl⟩ | hname') hsame
  · obtain ⟨c, hc, -⟩ := exists_char_of_mark hmark
    obtain ⟨c', hc', -⟩ := exists_char_of_mark hmark'
    rw [hc, hc'] at hsame
    rw [hc, hc', (List.cons.inj hsame).1]
  · exact absurd hsame (ne_of_mark hmark hname')
  · exact absurd hsame.symm (ne_of_mark hmark' hname)
  · exact exact_identifier _ _ _ _ hname hname' hsame

end Shape

/-- The lexemes from one place to another, blanks between them left out. -/
inductive Lexemes : Position → List String → Position → Prop
  | nil {p : Position} : Lexemes p [] p
  | cons {p p₁ q : Position} {t : Token} {words : List String} :
    Reads .markOrName p t p₁ → Lexemes p₁ words q → Lexemes p (t.text :: words) q

namespace Lexemes

variable {p p₁ q : Position} {words words' : List String} {t : Token}

theorem name (h : Reads .identifier p t p₁) (hrest : Lexemes p₁ words q) :
    Lexemes p (t.text :: words) q := by
  obtain ⟨word, hname, hreads⟩ := h
  exact .cons ⟨word, .inr hname, hreads⟩ hrest

theorem mark {mark : String} (hmark : mark ∈ marks) (h : Reads (.fixed mark) p t p₁)
    (hrest : Lexemes p₁ words q) : Lexemes p (mark :: words) q := by
  obtain ⟨word, rfl, hstands, htext, hdecoded⟩ := h
  rw [String.ofList_toList] at htext
  subst htext
  exact .cons ⟨_, .inl ⟨t.text, hmark, rfl⟩, hstands, String.ofList_toList.symm, hdecoded⟩ hrest

theorem append (h : Lexemes p words p₁) (h' : Lexemes p₁ words' q) :
    Lexemes p (words ++ words') q := by
  induction h with
  | nil => exact h'
  | cons ht _ ih => exact .cons ht (ih h')

theorem length_lt (h : Reads .markOrName p t p₁) : p₁.rest.length < p.rest.length := by
  obtain ⟨word, hshape, ⟨blanks, -, hrest, -⟩, -⟩ := h
  obtain ⟨c, more, rfl, -⟩ := Shape.solid_markOrName word _ hshape
  rw [hrest]
  simp only [List.length_append, List.length_cons]
  omega

theorem length_le (h : Lexemes p words q) : q.rest.length ≤ p.rest.length := by
  induction h with
  | nil => exact Nat.le_refl _
  | cons ht _ ih => exact ih.trans (Nat.le_of_lt (length_lt ht))

theorem eq_nil (h : Lexemes p words p) : words = [] := by
  cases h with
  | nil => rfl
  | cons ht hrest => exact absurd (length_lt ht) (Nat.not_lt.mpr hrest.length_le)

/-- Between two places there are only these lexemes. -/
theorem unique (h : Lexemes p words q) (h' : Lexemes p words' q) : words = words' := by
  induction h generalizing words' with
  | nil => exact h'.eq_nil.symm
  | cons ht hrest ih =>
      cases h' with
      | nil => exact absurd (length_lt ht) (Nat.not_lt.mpr hrest.length_le)
      | cons ht' hrest' =>
          obtain ⟨rfl, rfl⟩ := ht.unique ht' Shape.exact_markOrName Shape.solid_markOrName
          rw [ih hrest']

end Lexemes

/-- A word of the characters of names. -/
def IsName (word : String) : Prop :=
  word ≠ "" ∧ ∀ c ∈ word.toList, isIdentChar c = true

theorem isName_of_reads {p q : Position} {t : Token} (h : Reads .identifier p t q) :
    IsName t.text := by
  obtain ⟨word, ⟨hne, haccepts, -⟩, -, htext, -⟩ := h
  rw [htext, IsName, String.toList_ofList]
  refine ⟨fun hempty => hne ?_, haccepts⟩
  simpa using congrArg String.toList hempty

/-- The documented spelling of a type that is no function type: a name, followed by stars. -/
inductive NamedWords : TypeExpr → List String → Prop
  | name {name : Token} : IsName name.text → NamedWords (.named name) [name.text]
  | star {inner : TypeExpr} {star : Token} {words : List String} :
    NamedWords inner words → NamedWords (.pointer inner star) (words ++ ["*"])

mutual

inductive TypeWords : TypeExpr → List String → Prop
  | named {type : TypeExpr} {words : List String} : NamedWords type words → TypeWords type words
  | function {s : Signature} {words : List String} :
    SignatureWords s words → TypeWords (.function s.args s.ret s.left s.right) words

/-- The argument types in parentheses, followed by the type of the result. -/
inductive SignatureWords : Signature → List String → Prop
  | mk {args : List TypeExpr} {ret : Option TypeExpr} {left right : Token}
    {words words' : List String} : TypesWords args words → ResultWords ret words' →
    SignatureWords ⟨args, ret, left, right⟩ ("(" :: (words ++ ")" :: words'))

/-- Types with a comma between any two of them. -/
inductive TypesWords : List TypeExpr → List String → Prop
  | none : TypesWords [] []
  | last {type : TypeExpr} {words : List String} : TypeWords type words → TypesWords [type] words
  | more {type : TypeExpr} {types : List TypeExpr} {words words' : List String} :
    TypeWords type words → types ≠ [] → TypesWords types words' →
    TypesWords (type :: types) (words ++ "," :: words')

inductive ResultWords : Option TypeExpr → List String → Prop
  | none : ResultWords none []
  | some {type : TypeExpr} {words : List String} : TypeWords type words →
    ResultWords (some type) words

end

/-- Names with commas between them, behind a name and a mark. -/
inductive DirectiveWords : Stmt → List String → Prop
  | mk {name bang : Token} {args : List Token} : args ≠ [] → (∀ t ∈ name :: args, IsName t.text) →
    DirectiveWords (.directive name bang args)
      (name.text :: "!" :: (args.map (·.text)).intersperse ",")

section Separation

variable {word : String} {words words' : List String}

/-- A comma stands right before a closing parenthesis. -/
def HasClosingComma (words : List String) : Prop :=
  [",", ")"] <:+: words

/-- There is no comma right before a closing parenthesis, nor could one be at the ends. -/
structure Separated (words : List String) : Prop where
  inner : words.IsChain fun word next => ¬ (word = "," ∧ next = ")")
  head : words.head? ≠ some ")"
  last : words.getLast? ≠ some ","

theorem not_hasClosingComma_iff : ¬ HasClosingComma words ↔
    words.IsChain fun word next => ¬ (word = "," ∧ next = ")") := by
  rw [List.isChain_iff_forall_rel_of_append_cons_cons]
  constructor
  · rintro h a b before after rfl ⟨rfl, rfl⟩
    exact h ⟨before, after, by simp⟩
  · rintro h ⟨before, after, rfl⟩
    exact h (List.append_assoc before [",", ")"] after) ⟨rfl, rfl⟩

namespace Separated

theorem nil : Separated [] :=
  ⟨.nil, nofun, nofun⟩

theorem single (hcomma : word ≠ ",") (hclosing : word ≠ ")") : Separated [word] :=
  ⟨.singleton _, by simpa using hclosing, by simpa using hcomma⟩

theorem append (h : Separated words) (h' : Separated words') : Separated (words ++ words') where
  inner := List.isChain_append.mpr ⟨h.inner, h'.inner, fun _ hlast _ _ hboth =>
    h.last (hboth.1 ▸ hlast)⟩
  head := by
    cases words with
    | nil => exact h'.head
    | cons word words => exact h.head
  last := by
    rw [List.getLast?_append]
    have hlast := h'.last
    cases hlast' : words'.getLast? with
    | none => exact h.last
    | some word => rwa [hlast'] at hlast

/-- A comma may stand before words, if there are any. -/
theorem comma (h : Separated words) (hne : words ≠ []) : Separated ("," :: words) where
  inner := List.isChain_cons.mpr ⟨fun _ hnext hboth => h.head (hboth.2 ▸ hnext), h.inner⟩
  head := by simp
  last := by
    obtain ⟨first, rest, rfl⟩ := List.exists_cons_of_ne_nil hne
    rw [List.getLast?_cons_cons]
    exact h.last

/-- Parentheses may stand around words. -/
theorem parens (h : Separated words) (h' : Separated words') :
    Separated ("(" :: (words ++ ")" :: words')) where
  inner := by
    have hno {mark : String} (hmark : mark ≠ ",") (next : String) :
        ¬ (mark = "," ∧ next = ")") := fun hboth => hmark hboth.1
    refine List.isChain_cons.mpr ⟨fun next _ => hno (by decide) next, ?_⟩
    exact List.isChain_append.mpr ⟨h.inner,
      List.isChain_cons.mpr ⟨fun next _ => hno (by decide) next, h'.inner⟩,
      fun _ hlast _ _ hboth => h.last (hboth.1 ▸ hlast)⟩
  head := by simp
  last := by
    rw [← List.cons_append, List.getLast?_append, List.getLast?_cons]
    have hlast := h'.last
    cases hlast' : words'.getLast? with
    | none => simp
    | some word =>
        rw [hlast'] at hlast
        simpa using hlast

end Separated

theorem IsName.ne {mark : String} (h : IsName word)
    (hmark : mark.toList.any (!isIdentChar ·) = true) : word ≠ mark := by
  rintro rfl
  obtain ⟨c, hc, hnot⟩ := List.any_eq_true.mp hmark
  rw [h.2 c hc] at hnot
  cases hnot

theorem NamedWords.separated {type : TypeExpr} (h : NamedWords type words) : Separated words := by
  induction h with
  | name hname => exact .single (hname.ne (by decide)) (hname.ne (by decide))
  | star _ ih => exact ih.append (.single (by decide) (by decide))

theorem NamedWords.ne_nil {type : TypeExpr} (h : NamedWords type words) : words ≠ [] := by
  cases h <;> simp

theorem TypeWords.ne_nil {type : TypeExpr} (h : TypeWords type words) : words ≠ [] := by
  cases h with
  | named hnamed => exact hnamed.ne_nil
  | function hs =>
      cases hs
      exact List.cons_ne_nil _ _

theorem TypesWords.ne_nil {types : List TypeExpr} (h : TypesWords types words) (hne : types ≠ []) :
    words ≠ [] := by
  cases h with
  | none => exact absurd rfl hne
  | last htype => exact htype.ne_nil
  | more _ _ _ => simp

mutual

theorem TypeWords.separated {type : TypeExpr} {words : List String} :
    TypeWords type words → Separated words
  | .named hnamed => hnamed.separated
  | .function hs => hs.separated

theorem SignatureWords.separated {s : Signature} {words : List String} :
    SignatureWords s words → Separated words
  | .mk hargs hret => hargs.separated.parens hret.separated

theorem TypesWords.separated {types : List TypeExpr} {words : List String} :
    TypesWords types words → Separated words
  | .none => .nil
  | .last htype => htype.separated
  | .more htype hne hmore => htype.separated.append (hmore.separated.comma (hmore.ne_nil hne))

theorem ResultWords.separated {ret : Option TypeExpr} {words : List String} :
    ResultWords ret words → Separated words
  | .none => .nil
  | .some htype => htype.separated

end

theorem SignatureWords.not_hasClosingComma {s : Signature} (h : SignatureWords s words) :
    ¬ HasClosingComma words :=
  not_hasClosingComma_iff.mpr h.separated.inner

end Separation

/-- The words without the commas right before a closing parenthesis. -/
def withoutClosingCommas : List String → List String
  | [] => []
  | word :: rest =>
    if word = "," ∧ rest.head? = some ")" then withoutClosingCommas rest
    else word :: withoutClosingCommas rest

/-- Some commas right before a closing parenthesis may be left out. -/
inductive Drops : List String → List String → Prop
  | nil : Drops [] []
  | keep (word : String) {words words' : List String} :
    Drops words words' → Drops (word :: words) (word :: words')
  | drop {words words' : List String} : Drops (")" :: words) words' →
    Drops ("," :: ")" :: words) words'

namespace Drops

variable {words words' rest rest' : List String}

theorem refl (words : List String) : Drops words words := by
  induction words with
  | nil => exact .nil
  | cons word words ih => exact .keep word ih

theorem append (h : Drops words words') (h' : Drops rest rest') :
    Drops (words ++ rest) (words' ++ rest') := by
  induction h with
  | nil => exact h'
  | keep word _ ih => exact .keep word ih
  | drop _ ih => exact .drop ih

theorem head?_closing (h : Drops words words') (hhead : words.head? = some ")") :
    words'.head? = some ")" := by
  cases h with
  | nil => exact hhead
  | keep word _ => exact hhead
  | drop _ => simp at hhead

/-- Where no such comma is left, all of them were left out. -/
theorem eq_of_not_hasClosingComma (h : Drops words words') (hnone : ¬ HasClosingComma words') :
    withoutClosingCommas words = words' := by
  rw [not_hasClosingComma_iff] at hnone
  induction h with
  | nil => rfl
  | keep word h ih =>
      obtain ⟨hword, hrest⟩ := List.isChain_cons.mp hnone
      rw [withoutClosingCommas, if_neg, ih hrest]
      rintro ⟨hcomma, hhead⟩
      exact hword _ (h.head?_closing hhead) ⟨hcomma, rfl⟩
  | drop h ih =>
      rw [withoutClosingCommas, if_pos ⟨rfl, rfl⟩]
      exact ih hnone

end Drops

theorem withoutClosingCommas_eq {words : List String} (h : ¬ HasClosingComma words) :
    withoutClosingCommas words = words :=
  (Drops.refl words).eq_of_not_hasClosingComma h

namespace Derivation

/-- Between the places there are words, which are spelled like `P` without some commas right before
a closing parenthesis. -/
def Follows (P : List String → Prop) (p q : Position) : Prop :=
  ∃ words words', Lexemes p words q ∧ Drops words words' ∧ P words'

/-- The same for words with a closing parenthesis behind them. -/
def FollowsInside (P : List String → Prop) (p q : Position) : Prop :=
  ∃ words words', Lexemes p words q ∧ P words' ∧ ∀ rest rest', Drops rest rest' →
    Drops (words ++ ")" :: rest) (words' ++ ")" :: rest')

theorem Follows.inside {P : List String → Prop} {p q : Position} (h : Follows P p q) :
    FollowsInside P p q := by
  obtain ⟨words, words', hwords, hdrops, hP⟩ := h
  exact ⟨words, words', hwords, hP, fun rest rest' hrest => hdrops.append (.keep ")" hrest)⟩

theorem Stars.words {inner type : TypeExpr} {p q : Position} {spans : List Span}
    (h : Stars inner p type spans q) {before : List String} (hinner : NamedWords inner before) :
    ∃ words, Lexemes p words q ∧ NamedWords type (before ++ words) := by
  induction h generalizing before with
  | none => exact ⟨[], .nil, by rwa [List.append_nil]⟩
  | star hstar _ ih =>
      obtain ⟨words, hwords, htype⟩ := ih (.star hinner)
      refine ⟨"*" :: words, .mark (by decide) hstar hwords, ?_⟩
      rwa [List.append_assoc] at htype

mutual

theorem TypeAt.follows {p q : Position} {type : TypeExpr} {spans : List Span} :
    TypeAt p type spans q → Follows (TypeWords type) p q
  | .named hname hstars => by
    obtain ⟨words, hwords, htype⟩ := hstars.words (.name (isName_of_reads hname))
    exact ⟨_, _, .name hname hwords, .refl _, .named htype⟩
  | .function hs => by
    obtain ⟨words, words', hwords, hdrops, hs⟩ := hs.follows
    exact ⟨words, words', hwords, hdrops, .function hs⟩

theorem SignatureAt.follows {p q : Position} {s : Signature} {spans : List Span} :
    SignatureAt p s spans q → Follows (SignatureWords s) p q
  | .mk hleft hargs hright hret => by
    obtain ⟨words, words', hwords, hargs, hdrops⟩ := hargs.follows
    obtain ⟨rest, rest', hrest, hdrops', hret⟩ := hret.follows
    exact ⟨_, _, .mark (by decide) hleft (hwords.append (.mark (by decide) hright hrest)),
      .keep "(" (hdrops rest rest' hdrops'), .mk hargs hret⟩

theorem TypesAt.follows {p q : Position} {types : List TypeExpr} {spans : List Span} :
    TypesAt p types spans q → FollowsInside (TypesWords types) p q
  | .none => ⟨[], [], .nil, .none, fun _ _ => .keep ")"⟩
  | .last htype => by
    obtain ⟨words, words', hwords, hdrops, htype⟩ := htype.follows
    exact Follows.inside ⟨words, words', hwords, hdrops, .last htype⟩
  | @TypesAt.more _ _ _ _ _ _ types _ _ htype hcomma hmore => by
    obtain ⟨words, words', hwords, hdrops, htype⟩ := htype.follows
    -- a comma with no type behind it is one of those that are left out
    rcases eq_or_ne types [] with rfl | hne
    · cases hmore
      refine ⟨words ++ [","], words', hwords.append (.mark (by decide) hcomma .nil), .last htype,
        fun rest rest' hrest => ?_⟩
      rw [List.append_assoc]
      exact hdrops.append (.drop (.keep ")" hrest))
    · obtain ⟨others, others', hothers, hmore, hdrops'⟩ := hmore.follows
      refine ⟨words ++ "," :: others, words' ++ "," :: others',
        hwords.append (.mark (by decide) hcomma hothers), .more htype hne hmore,
        fun rest rest' hrest => ?_⟩
      rw [List.append_assoc, List.append_assoc]
      exact hdrops.append (.keep "," (hdrops' rest rest' hrest))

theorem ResultAt.follows {p q : Position} {ret : Option TypeExpr} {spans : List Span} :
    ResultAt p ret spans q → Follows (ResultWords ret) p q
  | .none => ⟨[], [], .nil, .nil, .none⟩
  | .some htype => by
    obtain ⟨words, words', hwords, hdrops, htype⟩ := htype.follows
    exact ⟨words, words', hwords, hdrops, .some htype⟩

end

theorem NamesAt.words {p q : Position} {names : List Token} {spans : List Span}
    (h : NamesAt p names spans q) : names ≠ [] ∧ (∀ t ∈ names, IsName t.text) ∧
      Lexemes p ((names.map (·.text)).intersperse ",") q := by
  induction h with
  | last hname =>
      exact ⟨List.cons_ne_nil _ _, List.forall_mem_singleton.mpr (isName_of_reads hname),
        .name hname .nil⟩
  | more hname hcomma _ ih =>
      obtain ⟨hne, hnames, hwords⟩ := ih
      obtain ⟨next, names, rfl⟩ := List.exists_cons_of_ne_nil hne
      exact ⟨List.cons_ne_nil _ _, List.forall_mem_cons.mpr ⟨isName_of_reads hname, hnames⟩,
        .name hname (.mark (by decide) hcomma hwords)⟩

theorem StatementAt.directiveWords {p q : Position} {name bang : Token} {args : List Token}
    {spans : List Span} (h : StatementAt p (.directive name bang args) spans q) :
    ∃ words, Lexemes p words q ∧ DirectiveWords (.directive name bang args) words := by
  cases h with
  | directive hname hbang hargs =>
      obtain ⟨hne, hnames, hwords⟩ := hargs.words
      obtain ⟨word, hshape, hreads⟩ := hname
      have hname : Reads .identifier p name _ := ⟨word, hshape.1, hreads⟩
      exact ⟨_, .name hname (.mark (by decide) hbang hwords),
        .mk hne (List.forall_mem_cons.mpr ⟨isName_of_reads hname, hnames⟩)⟩

end Derivation

section Rules

variable {c c' : Cursor} {p : Position}

theorem Rule.exists_directive {statement : Stmt}
    (h : Rule.directive c = (.matched statement, c')) :
    ∃ name bang args, statement = .directive name bang args := by
  obtain ⟨name, _, -, h⟩ := bind_eq_matched.mp h
  obtain ⟨bang, _, -, h⟩ := bind_eq_matched.mp h
  obtain ⟨args, _, -, h⟩ := bind_eq_matched.mp h
  cases h
  exact ⟨name, bang, args, rfl⟩

/-- What a rule reads of a type is the documented spelling of its tree, once the commas right before
closing parentheses are left out. It is a documented spelling itself only if there are none. What is
read of a directive is its documented spelling. -/
theorem comma_lists_of_matched (hc : c.At p) :
    (∀ s, Rule.signature c = (.matched s, c') → ∃ words q, Lexemes p words q ∧ c'.At q ∧
      SignatureWords s (withoutClosingCommas words) ∧
      ((∃ s', SignatureWords s' words) ↔ ¬ HasClosingComma words)) ∧
    ∀ statement, Rule.directive c = (.matched statement, c') →
      ∃ words q, Lexemes p words q ∧ c'.At q ∧ DirectiveWords statement words := by
  refine ⟨fun s hmatch => ?_, fun statement hmatch => ?_⟩
  · obtain ⟨spans, q, hderives, hq⟩ := Rule.sound_signature c c' p s hc hmatch
    obtain ⟨words, words', hwords, hdrops, hs⟩ := hderives.follows
    have hsame := hdrops.eq_of_not_hasClosingComma hs.not_hasClosingComma
    refine ⟨words, q, hwords, hq, hsame ▸ hs, fun ⟨_, hs'⟩ => hs'.not_hasClosingComma,
      fun hnone => ?_⟩
    rw [withoutClosingCommas_eq hnone] at hsame
    exact ⟨s, hsame ▸ hs⟩
  · obtain ⟨spans, q, hderives, hq⟩ := Rule.sound_directive c c' p statement hc hmatch
    obtain ⟨name, bang, args, rfl⟩ := Rule.exists_directive hmatch
    obtain ⟨words, hwords, hdirective⟩ := hderives.directiveWords
    exact ⟨words, q, hwords, hq, hdirective⟩

/-- A word stands where no blank is before it. -/
theorem Position.reads_word {shape : Shape} (word after : List Char) (h : shape word after)
    (location : Location) : Reads shape ⟨location, word ++ after⟩
      { text := String.ofList word, span := ⟨location, location.walk word⟩ }
      ⟨location.walk word, after⟩ :=
  ⟨word, h, ⟨[], nofun, rfl, rfl, rfl, rfl⟩, rfl, rfl⟩

/-- A function type within the arguments of another one. -/
theorem comma_lists_of_matched_nested :
    (Cursor.ofString "((int,) a, b)").At (.start "((int,) a, b)") ∧
    ∃ s c' words q, Rule.signature (.ofString "((int,) a, b)") = (.matched s, c') ∧
      Lexemes (.start "((int,) a, b)") words q ∧ c'.At q ∧
      SignatureWords s (withoutClosingCommas words) := by
  have hc := Cursor.at_start "((int,) a, b)"
  obtain ⟨s, c', hmatch⟩ := Rule.exists_of_isMatched (r := Rule.signature)
    (c := .ofString "((int,) a, b)") (by decide +kernel)
  obtain ⟨words, q, hwords, hq, hs, -⟩ := (comma_lists_of_matched hc).1 s hmatch
  exact ⟨hc, s, c', words, q, hmatch, hwords, hq, hs⟩

/-- A comma is read right before a closing parenthesis, where there is none in the grammar. -/
theorem comma_before_closing : ∃ s c' q,
    Rule.signature (.ofString "(int,)") = (.matched s, c') ∧ c'.At q ∧
    Lexemes (.start "(int,)") ["(", "int", ",", ")"] q ∧
    ∀ words, Lexemes (.start "(int,)") words q → ¬ ∃ s', SignatureWords s' words := by
  have hleft : Reads (.fixed "(") (.start "(int,)") _ _ :=
    reads_word ['('] ['i', 'n', 't', ',', ')'] rfl .start
  have hstops : ∀ c ∈ [',', ')'].head?, isIdentChar c = false := by
    rintro c ⟨⟩
    rfl
  have hname (l : Location) :
      Reads .identifier ⟨l, ['i', 'n', 't', ',', ')']⟩ _ ⟨l.walk ['i', 'n', 't'], [',', ')']⟩ :=
    reads_word ['i', 'n', 't'] [',', ')'] ⟨nofun, List.all_eq_true.mp rfl, hstops⟩ l
  have hcomma (l : Location) : Reads (.fixed ",") ⟨l, [',', ')']⟩ _ ⟨l.walk [','], [')']⟩ :=
    reads_word [','] [')'] rfl l
  have hright (l : Location) : Reads (.fixed ")") ⟨l, [')']⟩ _ ⟨l.walk [')'], []⟩ :=
    reads_word [')'] [] rfl l
  have hwords := Lexemes.mark (by decide) hleft (.name (hname _) (.mark (by decide) (hcomma _)
    (.mark (by decide) (hright _) .nil)))
  have hderives := Derivation.SignatureAt.mk hleft
    (.more (.named (hname _) .none) (hcomma _) .none) (hright _) .none
  obtain ⟨c', hmatch, hq⟩ := Rule.gives_signature hderives nofun _ (Cursor.at_start "(int,)")
  refine ⟨_, c', _, hmatch, hq, hwords, fun words hwords' => ?_⟩
  obtain rfl := hwords.unique hwords'
  exact fun ⟨s', hs'⟩ => hs'.not_hasClosingComma ⟨["(", "int"], [], rfl⟩

end Rules

end KestrelCompiler
