import KestrelCompiler.Proofs.Spacing.Spelling

/-!
Lexemes with the blanks before them. A derivation leads over such a sequence. The same lexemes
with other blanks can take its place, as long as behind each of them the text begins with a blank
or in the same way as before, and so can other spellings of those that begin with a numeric
character.
-/

namespace KestrelCompiler

open Text Position

/-- How a token is seen before it moves, and how it is seen after that. -/
structure TokenView where
  old : Token → Token
  new : Token → Token

/-- A token that moves from the one span to the other looks the same. -/
def TokenView.Keeps (v : TokenView) (s s' : Span) : Prop :=
  ∀ t : Token, t.span = s → v.new { t with span := s' } = v.old t

/-- A token with the text `word` at the one span looks the same as one with `word'` at the other. -/
def TokenView.Respells (v : TokenView) (s s' : Span) (word word' : List Char) : Prop :=
  Respelled word word' ∧ ∀ t : Token, t.span = s → t.text = String.ofList word →
    v.new { t with span := s', text := String.ofList word' } = v.old t

/-- A word is kept or spelled in another way, and its token looks the same. -/
def TokenView.Takes (v : TokenView) (s s' : Span) (word word' : List Char) : Prop :=
  (word' = word ∧ v.Keeps s s') ∨ v.Respells s s' word word'

/-- What does not begin with a numeric character is kept. -/
theorem TokenView.Takes.keeps {v : TokenView} {s s' : Span} {word word' : List Char}
    (h : v.Takes s s' word word') (hword : ∀ c ∈ word.head?, isNumeric c = false) :
    word' = word ∧ v.Keeps s s' := by
  refine h.resolve_right fun hrespells => ?_
  cases hrespells.1 with
  | mk hc _ =>
      rw [hword _ rfl] at hc
      cases hc

theorem isNumeric_of_head?_bang {c : Char} (h : c ∈ "!".toList.head?) : isNumeric c = false := by
  obtain rfl : '!' = c := Option.some.inj h
  decide

/-- A lexeme with the blanks before it. -/
structure Spaced where
  blanks : List Char
  word : List Char
  isBlank_of_mem : ∀ c ∈ blanks, isBlank c = true
  word_ne_nil : word ≠ []

namespace Spaced

def text (x : Spaced) : List Char :=
  x.blanks ++ x.word

/-- The span of the word when its blanks begin at `l`. -/
def span (l : Location) (x : Spaced) : Span :=
  ⟨l.walk x.blanks, (l.walk x.blanks).walk x.word⟩

def textOf (xs : List Spaced) : List Char :=
  xs.flatMap text

/-- The spans of some lexemes, the first of which has its blanks at `l`. -/
def spansOf : Location → List Spaced → List Span
  | _, [] => []
  | l, x :: rest => x.span l :: spansOf (l.walk x.text) rest

variable {xs ys zs : List Spaced} {tail tail' : List Char}

@[simp] theorem textOf_nil : textOf [] = [] := rfl

@[simp] theorem textOf_cons (x : Spaced) (xs : List Spaced) :
    textOf (x :: xs) = x.text ++ textOf xs := rfl

theorem textOf_append (xs ys : List Spaced) : textOf (xs ++ ys) = textOf xs ++ textOf ys :=
  List.flatMap_append

theorem spansOf_append (l : Location) (xs ys : List Spaced) :
    spansOf l (xs ++ ys) = spansOf l xs ++ spansOf (l.walk (textOf xs)) ys := by
  induction xs generalizing l with
  | nil => rfl
  | cons x rest ih =>
      simp only [List.cons_append, spansOf, ih, textOf_cons, Location.walk_append]

variable {v : TokenView} {l l' : Location}

/-- The lexemes `ys` from `l'` on, in front of `tail'`, may stand for the lexemes `xs` from `l` on, in
front of `tail`: behind each one the text agrees with what was there, and its token looks the same.
The `!` of a directive keeps its blanks. -/
inductive Relays (v : TokenView) (tail tail' : List Char) :
    Location → Location → List Spaced → List Spaced → Prop
  | nil {l l' : Location} : Relays v tail tail' l l' [] []
  | cons {l l' : Location} {x y : Spaced} {xs ys : List Spaced} :
    v.Takes (x.span l) (y.span l') x.word y.word → (x.word = ['!'] → y.blanks = x.blanks) →
    Agrees (textOf xs ++ tail) (textOf ys ++ tail') →
    Relays v tail tail' (l.walk x.text) (l'.walk y.text) xs ys →
    Relays v tail tail' l l' (x :: xs) (y :: ys)

theorem Relays.split (h : Relays v tail tail' l l' (xs ++ zs) ys) :
    ∃ ys₁ ys₂, ys = ys₁ ++ ys₂ ∧
      Relays v (textOf zs ++ tail) (textOf ys₂ ++ tail') l l' xs ys₁ ∧
      Relays v tail tail' (l.walk (textOf xs)) (l'.walk (textOf ys₁)) zs ys₂ := by
  induction xs generalizing l l' ys with
  | nil => exact ⟨[], ys, rfl, .nil, h⟩
  | cons x rest ih =>
      cases h with
      | cons htakes hbang hagrees hmore =>
          obtain ⟨ys₁, ys₂, rfl, hfirst, hsecond⟩ := ih hmore
          rw [List.append_eq, textOf_append, textOf_append, List.append_assoc,
            List.append_assoc] at hagrees
          refine ⟨_ :: ys₁, ys₂, rfl, .cons htakes hbang hagrees hfirst, ?_⟩
          rwa [textOf_cons, textOf_cons, Location.walk_append, Location.walk_append]

end Spaced

open Spaced

namespace Position

/-- The lexemes `xs` lead from `p` to `q`. -/
structure Leads (xs : List Spaced) (p q : Position) : Prop where
  rest : p.rest = textOf xs ++ q.rest
  location : q.location = p.location.walk (textOf xs)

variable {p m q : Position} {xs ys : List Spaced}

theorem leads_nil (p : Position) : Leads [] p p :=
  ⟨rfl, rfl⟩

theorem Leads.append (h : Leads xs p m) (h' : Leads ys m q) : Leads (xs ++ ys) p q where
  rest := by rw [h.rest, h'.rest, textOf_append, List.append_assoc]
  location := by rw [h'.location, h.location, textOf_append, Location.walk_append]

theorem Leads.split (h : Leads (xs ++ ys) p q) :
    ∃ m, Leads xs p m ∧ Leads ys m q := by
  refine ⟨⟨p.location.walk (textOf xs), textOf ys ++ q.rest⟩, ⟨?_, rfl⟩, ⟨rfl, ?_⟩⟩
  · rw [h.rest, textOf_append, List.append_assoc]
  · rw [h.location, textOf_append, Location.walk_append]

theorem Leads.eq (h : Leads [] p q) : p = q := by
  obtain ⟨l, text⟩ := p
  obtain ⟨l', text'⟩ := q
  obtain ⟨rfl, rfl⟩ : text = text' ∧ l' = l := ⟨h.rest, h.location⟩
  rfl

theorem Leads.stands {x : Spaced} (h : Leads [x] p q) : p.Stands x.word (x.span p.location) q := by
  refine ⟨x.blanks, x.isBlank_of_mem, ?_, rfl, rfl, ?_⟩
  · rw [h.rest]
    simp [Spaced.text]
  · rw [h.location]
    simp [Spaced.text, Spaced.span, Location.walk_append]

/-- The lexeme that stands at a place, with the blanks before it. -/
theorem Stands.leads {word : List Char} {s : Span} (h : p.Stands word s q) (hne : word ≠ []) :
    ∃ x : Spaced, x.word = word ∧ Leads [x] p q ∧ x.span p.location = s := by
  obtain ⟨blanks, hblanks, hrest, hstart, hstop, hq⟩ := h
  refine ⟨⟨blanks, word, hblanks, hne⟩, rfl, ⟨?_, ?_⟩, ?_⟩
  · simp [hrest, Spaced.text]
  · simp [hq, hstop, hstart, Spaced.text, Location.walk_append]
  · rw [Spaced.span, ← hstart, ← hstop]

variable {v : TokenView} {spans spans' : List Span}
  {P Q : Position → List Span → Position → Prop}

/-- What leads from `p` to `q` over the lexemes in `spans` does so when their blanks change: then
`P` holds between the new places, with the new spans. -/
def Carried (v : TokenView) (p : Position) (spans : List Span) (q : Position)
    (P : Position → List Span → Position → Prop) : Prop :=
  ∃ xs, Leads xs p q ∧ spansOf p.location xs = spans ∧
    ∀ ys p' q', Leads ys p' q' → Relays v q.rest q'.rest p.location p'.location xs ys →
      P p' (spansOf p'.location ys) q'

theorem Carried.mono (h : Carried v p spans q P) (hle : ∀ p s q, P p s q → Q p s q) :
    Carried v p spans q Q := by
  obtain ⟨xs, hleads, hspans, hcarried⟩ := h
  exact ⟨xs, hleads, hspans, fun ys p' q' hys hrelays =>
    hle _ _ _ (hcarried ys p' q' hys hrelays)⟩

theorem carried_nil (p : Position) : Carried v p [] p fun p' s q' => s = [] ∧ p' = q' := by
  refine ⟨[], leads_nil p, rfl, fun ys p' q' hys hrelays => ?_⟩
  cases hrelays
  exact ⟨rfl, hys.eq⟩

/-- One after the other. -/
theorem Carried.comp (h : Carried v p spans m P) (h' : Carried v m spans' q Q) :
    Carried v p (spans ++ spans') q fun p' s q' =>
      ∃ m' s₁ s₂, s = s₁ ++ s₂ ∧ P p' s₁ m' ∧ Q m' s₂ q' := by
  obtain ⟨xs, hleads, rfl, hcarried⟩ := h
  obtain ⟨zs, hleads', rfl, hcarried'⟩ := h'
  refine ⟨xs ++ zs, hleads.append hleads', ?_, fun ys p' q' hys hrelays => ?_⟩
  · rw [spansOf_append, hleads.location]
  · obtain ⟨ys₁, ys₂, rfl, hfirst, hsecond⟩ := hrelays.split
    obtain ⟨m', hys₁, hys₂⟩ := hys.split
    rw [← hleads'.rest, ← hys₂.rest] at hfirst
    rw [← hleads.location, ← hys₁.location] at hsecond
    rw [spansOf_append, ← hys₁.location]
    exact ⟨m', _, _, rfl, hcarried ys₁ p' m' hys₁ hfirst, hcarried' ys₂ m' q' hys₂ hsecond⟩

section Lexemes

variable {shape : Shape} {t : Token}

theorem carried_stands {word : List Char} {s : Span} (h : p.Stands word s q) (hne : word ≠ []) :
    Carried v p [s] q fun p' ss q' => ∃ s' word', ss = [s'] ∧ p'.Stands word' s' q' ∧
      Agrees q.rest q'.rest ∧ v.Takes s s' word word' ∧
      (word = ['!'] → p'.rest.head? = p.rest.head?) := by
  obtain ⟨x, rfl, hleads, rfl⟩ := h.leads hne
  refine ⟨[x], hleads, rfl, fun ys p' q' hys hrelays => ?_⟩
  cases hrelays with
  | @cons _ _ _ y _ _ htakes hbang hagrees hnil =>
      cases hnil
      refine ⟨y.span p'.location, y.word, rfl, hys.stands, hagrees, htakes, fun h => ?_⟩
      have hword : y.word = x.word :=
        (htakes.keeps (by rw [h]; exact fun _ => isNumeric_of_head?_bang)).1
      simp [hleads.rest, hys.rest, text, hbang h, hword, h]

theorem carried_reads (h : Reads shape p t q) (hsolid : shape.Solid) (hlasting : shape.Lasting)
    (hspelled : shape.Spelled) :
    Carried v p [t.span] q fun p' ss q' =>
      ∃ t', ss = [t'.span] ∧ Reads shape p' t' q' ∧ v.new t' = v.old t := by
  obtain ⟨word, hshape, hstands, htext, hdecoded⟩ := h
  obtain ⟨c, more, hword, -⟩ := hsolid word _ hshape
  refine (carried_stands hstands (hword ▸ List.cons_ne_nil c more)).mono ?_
  rintro p' _ q' ⟨s', word', rfl, hstands', hagrees, ⟨rfl, hkeeps⟩ | ⟨hother, hlook⟩, -⟩
  · exact ⟨{ t with span := s' }, rfl,
      ⟨word', hlasting word' _ _ hshape hagrees, hstands', htext, hdecoded⟩, hkeeps t rfl⟩
  · have hshape' := hspelled word word' _ (hlasting word _ _ hshape hagrees) hother
    exact ⟨{ t with span := s', text := String.ofList word' }, rfl,
      ⟨word', hshape', hstands', rfl, hdecoded⟩, hlook t rfl htext⟩

theorem carried_fixed {text : String} (h : Reads (.fixed text) p t q)
    (hsolid : (Shape.fixed text).Solid) (hnumeric : text.toList.head?.any isNumeric = false) :
    Carried v p [t.span] q fun p' ss q' =>
      ∃ t', ss = [t'.span] ∧ Reads (.fixed text) p' t' q' ∧ v.new t' = v.old t :=
  carried_reads h hsolid (Shape.lasting_fixed text) (Shape.spelled_fixed hnumeric)

theorem carried_identifier (h : Reads .identifier p t q) :
    Carried v p [t.span] q fun p' ss q' =>
      ∃ t', ss = [t'.span] ∧ Reads .identifier p' t' q' ∧ v.new t' = v.old t :=
  carried_reads h Shape.solid_identifier Shape.lasting_identifier Shape.spelled_identifier

theorem carried_string (h : ReadsString p t q) :
    Carried v p [t.span] q fun p' ss q' =>
      ∃ t', ss = [t'.span] ∧ ReadsString p' t' q' ∧ v.new t' = v.old t := by
  obtain ⟨pieces, hstands, ht⟩ := h
  refine (carried_stands hstands (List.cons_ne_nil _ _)).mono ?_
  rintro p' _ q' ⟨s', word', rfl, hstands', -, htakes, -⟩
  have hquote : ∀ c ∈ (StringLiteral.Piece.literal pieces).head?, isNumeric c = false := by
    rintro _ ⟨⟩
    decide +kernel
  obtain ⟨rfl, hkeeps⟩ := htakes.keeps hquote
  refine ⟨{ t with span := s' }, rfl, ⟨pieces, hstands', ?_⟩, hkeeps t rfl⟩
  obtain ⟨-, -, -, -, hstop, -⟩ := hstands'
  rw [ht]
  exact congrArg (Token.mk · _ _) (congrArg (Span.mk _) hstop)

/-- The name of a directive and its `!` move together, as nothing may come between them. -/
theorem carried_directive {name bang : Token} (hname : Reads .directiveName p name m)
    (hbang : Reads (.fixed "!") m bang q) :
    Carried v p [name.span, bang.span] q fun p' ss q' => ∃ name' bang' m',
      ss = [name'.span, bang'.span] ∧ Reads .directiveName p' name' m' ∧
        Reads (.fixed "!") m' bang' q' ∧ v.new name' = v.old name ∧ v.new bang' = v.old bang := by
  obtain ⟨word, ⟨hident, hnext⟩, hstands, htext⟩ := hname
  have hname : Reads .identifier p name m := ⟨word, hident, hstands, htext⟩
  obtain ⟨_, rfl, hstands', htext', hdecoded'⟩ := hbang
  refine ((carried_identifier hname).comp (carried_stands hstands' (by decide))).mono ?_
  rintro p' _ q' ⟨m', _, _, rfl, ⟨name', rfl, ⟨word', hident', hs, htext⟩, hsame⟩,
    s', _, rfl, hs', -, htakes, hhead⟩
  obtain ⟨rfl, hkeeps⟩ := htakes.keeps fun _ => isNumeric_of_head?_bang
  refine ⟨name', { bang with span := s' }, m', rfl, ⟨word', ⟨hident', ?_⟩, hs, htext⟩,
    ⟨_, rfl, hs', htext', hdecoded'⟩, hsame, hkeeps bang rfl⟩
  rw [hhead rfl, hnext]

end Lexemes

end Position

end KestrelCompiler
