import Mathlib.Data.List.Forall2
import KestrelCompiler.Proofs.Grammar.Unambiguity
import KestrelCompiler.Proofs.Spacing.Grammar

/-!
Blanks do not matter. A source that is read is cut into its lexemes in one way. With other blanks
around the lexemes it is read as well, and its tree is the same but for the places of the tokens.
-/

namespace KestrelCompiler

open Text Position Spaced KestrelCompiler.Derivation

/-- A text cut into lexemes, each with the blanks before it, and the blanks after the last one. -/
structure Layout where
  lexemes : List Spaced
  blanks : List Char
  isBlank_of_mem : ∀ c ∈ blanks, isBlank c = true

namespace Layout

def text (l : Layout) : String :=
  String.ofList (textOf l.lexemes ++ l.blanks)

def spans (l : Layout) : List Span :=
  spansOf .start l.lexemes

end Layout

/-- The same lexeme with other blanks. They may be added or replaced but not taken away, and the `!`
of a directive keeps touching its name. -/
structure Spaced.Relaid (x y : Spaced) : Prop where
  word : y.word = x.word
  blanks : x.blanks ≠ [] → y.blanks ≠ []
  bang : x.word = ['!'] → y.blanks = x.blanks

/-- The same lexemes with other blanks before, between and after them. -/
def Layout.Relaid (l l' : Layout) : Prop :=
  List.Forall₂ Spaced.Relaid l.lexemes l'.lexemes

/-- Every lexeme on a line of its own, save for the `!` of a directive. -/
def Layout.onLines (l : Layout) : Layout where
  lexemes := l.lexemes.map fun x =>
    if x.word = ['!'] then x
    else ⟨'\n' :: x.blanks, x.word, List.forall_mem_cons.mpr ⟨by decide, x.isBlank_of_mem⟩,
      x.word_ne_nil⟩
  blanks := '\n' :: l.blanks
  isBlank_of_mem := List.forall_mem_cons.mpr ⟨by decide, l.isBlank_of_mem⟩

theorem Layout.relaid_onLines (l : Layout) : l.Relaid l.onLines := by
  refine List.forall₂_map_right_iff.mpr (List.forall₂_same.mpr fun x _ => ?_)
  split
  · exact ⟨rfl, id, fun _ => rfl⟩
  · next hword => exact ⟨rfl, fun _ => List.cons_ne_nil _ _, fun h => absurd h hword⟩

/-- The token without its place. -/
def Token.unplaced (t : Token) : Token :=
  { t with span := ⟨.start, .start⟩ }

/-- The tree without the places of its tokens, on which all its spans rest. -/
def Program.unplaced (p : Program) : Program :=
  ⟨p.declarations.map (·.mapTokens Token.unplaced)⟩

namespace Spaced

variable {xs ys : List Spaced} {tail tail' : List Char}

theorem agrees_of_relaid (h : List.Forall₂ Spaced.Relaid xs ys)
    (htail : ∀ c ∈ tail', isBlank c = true) : Agrees (textOf xs ++ tail) (textOf ys ++ tail') := by
  cases h with
  | nil => exact fun c hc => .inl (htail c (List.mem_of_mem_head? hc))
  | @cons x y xs ys hxy _ =>
      intro c hc
      cases hblanks : y.blanks with
      | cons d more =>
          obtain rfl : d = c := by simpa [Spaced.text, hblanks] using hc
          exact .inl (y.isBlank_of_mem d (by simp [hblanks]))
      | nil =>
          -- neither has blanks, so that both begin with the word
          have hnone : x.blanks = [] := by
            by_contra hsome
            exact hxy.blanks hsome hblanks
          obtain ⟨d, more, hword⟩ := List.exists_cons_of_ne_nil x.word_ne_nil
          obtain rfl : d = c := by simpa [Spaced.text, hblanks, hxy.word, hword] using hc
          exact .inr (by simp [Spaced.text, hnone, hword])

theorem relays_of_relaid (h : List.Forall₂ Spaced.Relaid xs ys)
    (htail : ∀ c ∈ tail', isBlank c = true) (l l' : Location) :
    Relays ⟨Token.unplaced, Token.unplaced⟩ tail tail' l l' xs ys := by
  induction h generalizing l l' with
  | nil => exact .nil
  | cons hxy hmore ih =>
      exact .cons (.inl ⟨hxy.word, fun _ _ => rfl⟩) hxy.bang (agrees_of_relaid hmore htail) (ih _ _)

theorem length_eq_of_walk_eq {l : Location} {a b : List Char} (h : l.walk a = l.walk b) :
    a.length = b.length := by
  have hoffset := congrArg Location.offset h
  rw [Location.offset_walk, Location.offset_walk] at hoffset
  omega

/-- The spans tell how a text is cut. -/
theorem spansOf_inj {l : Location} (htext : textOf xs ++ tail = textOf ys ++ tail')
    (hspans : spansOf l xs = spansOf l ys) : xs = ys ∧ tail = tail' := by
  induction xs generalizing l ys with
  | nil =>
      cases ys with
      | nil => exact ⟨rfl, htext⟩
      | cons y rest => cases hspans
  | cons x rest ih =>
      cases ys with
      | nil => cases hspans
      | cons y rest' =>
          obtain ⟨blanks, word, _, _⟩ := x
          obtain ⟨blanks', word', _, _⟩ := y
          simp only [spansOf, Spaced.span, List.cons.injEq, Span.mk.injEq] at hspans
          obtain ⟨⟨hstart, hstop⟩, hmore⟩ := hspans
          simp only [textOf_cons, Spaced.text, List.append_assoc] at htext
          obtain ⟨rfl, hwords⟩ := List.append_inj htext (length_eq_of_walk_eq hstart)
          obtain ⟨rfl, hrest⟩ := List.append_inj hwords (length_eq_of_walk_eq hstop)
          obtain ⟨rfl, htail⟩ := ih hrest hmore
          exact ⟨rfl, htail⟩

end Spaced

namespace Derivation

variable {source : String} {program : Program} {spans : List Span}

/-- The text under a derivation, cut at its lexemes, and what becomes of it with other blanks. -/
theorem Derives.carried (h : Derives source program spans) :
    ∃ layout : Layout, layout.text = source ∧ layout.spans = spans ∧
      ∀ other, layout.Relaid other → ∃ program',
        Derives other.text program' other.spans ∧ program'.unplaced = program.unplaced := by
  obtain ⟨q, hdecls, hblank⟩ := h
  obtain ⟨xs, hleads, hspans, hcarried⟩ :=
    carried_declarations (v := ⟨Token.unplaced, Token.unplaced⟩) hdecls
  have htext : source.toList = textOf xs ++ q.rest := hleads.rest
  refine ⟨⟨xs, q.rest, hblank⟩, ?_, hspans, fun other hother => ?_⟩
  · rw [Layout.text, ← htext, String.ofList_toList]
  · have hstart : (start other.text).rest = textOf other.lexemes ++ other.blanks := by
      rw [start, Layout.text, String.toList_ofList]
    obtain ⟨decls, hdecls', hlook⟩ := hcarried other.lexemes (.start other.text)
      ⟨Location.start.walk (textOf other.lexemes), other.blanks⟩ ⟨hstart, rfl⟩
      (relays_of_relaid hother other.isBlank_of_mem _ _)
    exact ⟨⟨decls⟩, ⟨_, hdecls', other.isBlank_of_mem⟩, congrArg Program.mk hlook⟩

end Derivation

theorem Layout.eq_of_spans {l l' : Layout} (htext : l.text = l'.text) (hspans : l.spans = l'.spans) :
    l = l' := by
  obtain ⟨lexemes, blanks, _⟩ := l
  obtain ⟨lexemes', blanks', _⟩ := l'
  obtain ⟨rfl, rfl⟩ := spansOf_inj (String.ofList_injective htext) hspans
  rfl

/-- A source that is read is cut into its lexemes in one way. -/
theorem Program.existsUnique_layout {source : String} {program : Program}
    (h : Program.parse source = .ok program) :
    ∃! layout : Layout, layout.text = source ∧ Derives source program layout.spans := by
  obtain ⟨spans, hderives⟩ := Program.derives_of_parse h
  obtain ⟨layout, htext, rfl, -⟩ := hderives.carried
  refine ⟨layout, ⟨htext, hderives⟩, fun layout' ⟨htext', hderives'⟩ => ?_⟩
  exact Layout.eq_of_spans (htext'.trans htext.symm) (hderives'.unique hderives).2

/-- A source that is read is cut into its lexemes in one way. Put together again with other blanks,
the lexemes are those of a source that is read too, to the same tree but for the places. -/
theorem Program.parse_relaid {source : String} {program : Program}
    (h : Program.parse source = .ok program) :
    (∃! layout : Layout, layout.text = source ∧ Derives source program layout.spans) ∧
      ∀ layout other : Layout, layout.text = source → Derives source program layout.spans →
        layout.Relaid other → ∃ program', Program.parse other.text = .ok program' ∧
          Derives other.text program' other.spans ∧ program'.unplaced = program.unplaced := by
  refine ⟨Program.existsUnique_layout h, fun layout other htext hderives hother => ?_⟩
  obtain ⟨layout', htext', hspans, hcarried⟩ := hderives.carried
  obtain rfl : layout' = layout := Layout.eq_of_spans (htext'.trans htext.symm) hspans
  obtain ⟨program', hderives', hsame⟩ := hcarried other hother
  exact ⟨program', Program.parse_of_derives hderives', hderives', hsame⟩

/-- Hardly any blanks, but where they are needed. -/
def crampedSource : String :=
  "f(int*,(bool)char)int\x7blog!a,b if a<1 \x7b:\"x\"\x7delse \x7b:b\x7d\x7d"

theorem Program.parse_relaid_lines : ∃ (program program' : Program) (layout : Layout),
    Program.parse crampedSource = .ok program ∧ layout.text = crampedSource ∧
      Program.parse layout.onLines.text = .ok program' ∧ program'.unplaced = program.unplaced := by
  have hok : (Program.parse crampedSource).isOk = true := by decide +kernel
  cases hparse : Program.parse crampedSource with
  | ok program =>
      obtain ⟨⟨layout, ⟨htext, hderives⟩, -⟩, hrelaid⟩ := Program.parse_relaid hparse
      obtain ⟨program', hparse', -, hsame⟩ :=
        hrelaid layout layout.onLines htext hderives layout.relaid_onLines
      exact ⟨program, program', layout, rfl, htext, hparse', hsame⟩
  | error problem =>
      rw [hparse] at hok
      cases hok

end KestrelCompiler
