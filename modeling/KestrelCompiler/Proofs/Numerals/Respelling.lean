import KestrelCompiler.Proofs.Numerals.Kept
import KestrelCompiler.Proofs.Reread.Node
import KestrelCompiler.Proofs.Spacing.Program

/-!
Underscores in number literals. With more or fewer of them behind its first character a literal is
another spelling of itself. A source with other spellings is read to the same program, up to the
places of its tokens and the texts of these literals, and the same module is emitted.
-/

namespace KestrelCompiler

open Text Spaced Position KestrelCompiler.Derivation

theorem Text.Respelled.numberValue?_eq {word word' : List Char} (h : Text.Respelled word word') :
    numberValue? word' = numberValue? word := by
  rw [numberValue?, numberValue?, h.filter_eq]

/-- A lexeme with the same blanks, and with the same word unless that of a number literal is spelled
in another way. -/
structure Spaced.Respelled (numbers : List Token) (x : Spaced × Span) (y : Spaced) : Prop where
  blanks : y.blanks = x.1.blanks
  word : y.word = x.1.word ∨ Text.Respelled x.1.word y.word ∧ ∃ t ∈ numbers, t.span = x.2

/-- The same text, save that some of the number literals are spelled in another way. -/
structure Layout.Respelled (numbers : List Token) (l l' : Layout) : Prop where
  lexemes : List.Forall₂ (Spaced.Respelled numbers) (l.lexemes.zip l.spans) l'.lexemes
  blanks : l'.blanks = l.blanks

/-- The lexeme without the underscores behind its first character. -/
def Spaced.unscored (x : Spaced) : Spaced where
  blanks := x.blanks
  word := x.word.take 1 ++ x.word.tail.filter (· ≠ '_')
  isBlank_of_mem := x.isBlank_of_mem
  word_ne_nil := by
    obtain ⟨c, more, hword⟩ := List.exists_cons_of_ne_nil x.word_ne_nil
    rw [hword]
    exact List.cons_ne_nil _ _

/-- The same text without the underscores in number literals. -/
def Layout.unscored (l : Layout) (numbers : List Token) : Layout where
  lexemes := (l.lexemes.zip l.spans).map fun (x, s) =>
    if x.word.head?.any isNumeric && numbers.any (·.span = s) then x.unscored else x
  blanks := l.blanks
  isBlank_of_mem := l.isBlank_of_mem

theorem Spaced.respelled_unscored {x : Spaced} (h : x.word.head?.any isNumeric = true) :
    Text.Respelled x.word x.unscored.word := by
  obtain ⟨c, more, hword⟩ := List.exists_cons_of_ne_nil x.word_ne_nil
  have hc : isNumeric c = true := by simpa [hword] using h
  have hunscored : x.unscored.word = c :: more.filter (· ≠ '_') := by
    simp [unscored, hword]
  rw [hunscored, hword]
  exact .mk hc (by simp)

theorem Layout.respelled_unscored (l : Layout) (numbers : List Token) :
    l.Respelled numbers (l.unscored numbers) := by
  refine ⟨List.forall₂_map_right_iff.mpr (List.forall₂_same.mpr fun ⟨x, s⟩ _ => ?_), rfl⟩
  dsimp only
  split
  · next h =>
      obtain ⟨hnumeric, hnumber⟩ := Bool.and_eq_true_iff.mp h
      refine ⟨rfl, .inr ⟨Spaced.respelled_unscored hnumeric, ?_⟩⟩
      simpa using hnumber
  · exact ⟨rfl, .inl rfl⟩

namespace Spaced

/-- What becomes of the token of a lexeme. -/
def move (x y : Spaced) (s : Span) (t : Token) : Token :=
  { t with span := s, text := if y.word = x.word then t.text else String.ofList y.word }

/-- What becomes of the tokens at the spans of some lexemes when others take their place. -/
def moves : Location → Location → List Spaced → List Spaced → List (Span × (Token → Token))
  | l, l', x :: xs, y :: ys =>
    (x.span l, x.move y (y.span l')) :: moves (l.walk x.text) (l'.walk y.text) xs ys
  | _, _, _, _ => []

variable {numbers : List Token} {l l' : Location} {xs ys : List Spaced} {tail : List Char}

theorem Respelled.head?_word {x y : Spaced} {s : Span} (h : Respelled numbers (x, s) y) :
    y.word.head? = x.word.head? := by
  rcases h.word with hword | ⟨hword, -⟩
  · rw [hword]
  · exact hword.head?_eq

theorem head?_textOf_of_respelled
    (h : List.Forall₂ (Respelled numbers) (xs.zip (spansOf l xs)) ys) (tail : List Char) :
    (textOf ys ++ tail).head? = (textOf xs ++ tail).head? := by
  cases xs with
  | nil =>
      cases h
      rfl
  | cons x xs =>
      cases h with
      | @cons _ y _ ys hxy _ =>
          obtain ⟨c, more, hword⟩ := List.exists_cons_of_ne_nil x.word_ne_nil
          have hhead := hxy.head?_word
          simp [Spaced.text, hxy.blanks, List.head?_append, hhead, hword]

/-- With the tokens moved accordingly, the one sequence may stand for the other. -/
theorem relays_of_respelled (h : List.Forall₂ (Respelled numbers) (xs.zip (spansOf l xs)) ys)
    {f : Token → Token}
    (hf : ∀ entry ∈ moves l l' xs ys, ∀ t : Token, t.span = entry.1 → f t = entry.2 t) :
    Relays ⟨f, id⟩ tail tail l l' xs ys := by
  induction xs generalizing l l' ys with
  | nil =>
      cases h
      exact .nil
  | cons x xs ih =>
      cases h with
      | @cons _ y _ ys hxy hmore =>
          rw [moves, List.forall_mem_cons] at hf
          have hagrees : Agrees (textOf xs ++ tail) (textOf ys ++ tail) :=
            fun c hc => .inr ((head?_textOf_of_respelled hmore tail).symm.trans hc)
          refine .cons ?_ (fun _ => hxy.blanks) hagrees (ih hmore hf.2)
          have hmove : ∀ t : Token, t.span = x.span l → f t = x.move y (y.span l') t := hf.1
          by_cases hsame : y.word = x.word
          · refine .inl ⟨hsame, fun t ht => ?_⟩
            exact ((hmove t ht).trans (by rw [move, if_pos hsame]; rfl)).symm
          · refine .inr ⟨(hxy.word.resolve_left hsame).1, fun t ht _ => ?_⟩
            exact ((hmove t ht).trans (by rw [move, if_neg hsame]; rfl)).symm

theorem map_fst_moves (h : List.Forall₂ (Respelled numbers) (xs.zip (spansOf l xs)) ys) :
    (moves l l' xs ys).map Prod.fst = spansOf l xs := by
  induction xs generalizing l l' ys with
  | nil => rfl
  | cons x xs ih =>
      cases h with
      | cons _ hmore => rw [moves, List.map_cons, ih hmore, spansOf]

theorem offset_le_of_mem_spansOf {s : Span} (h : s ∈ spansOf l xs) :
    l.offset ≤ s.start.offset := by
  induction xs generalizing l with
  | nil => cases h
  | cons x xs ih =>
      rcases List.mem_cons.mp h with rfl | h
      · rw [Spaced.span, Location.offset_walk]
        omega
      · have hrest := ih h
        rw [Location.offset_walk] at hrest
        omega

/-- No two lexemes have the same place. -/
theorem nodup_spansOf (l : Location) (xs : List Spaced) : (spansOf l xs).Nodup := by
  induction xs generalizing l with
  | nil => exact List.nodup_nil
  | cons x xs ih =>
      refine List.nodup_cons.mpr ⟨fun hmem => ?_, ih _⟩
      have hpos := List.length_pos_iff.mpr x.word_ne_nil
      have hle := offset_le_of_mem_spansOf hmem
      rw [Spaced.span, Location.offset_walk, Location.offset_walk, Spaced.text,
        List.length_append] at hle
      omega

theorem exists_of_mem_moves (h : List.Forall₂ (Respelled numbers) (xs.zip (spansOf l xs)) ys)
    {entry : Span × (Token → Token)} (hentry : entry ∈ moves l l' xs ys) :
    ∃ x y s', (x, entry.1) ∈ xs.zip (spansOf l xs) ∧ Respelled numbers (x, entry.1) y ∧
      entry.2 = x.move y s' := by
  induction xs generalizing l l' ys with
  | nil => cases hentry
  | cons x xs ih =>
      cases h with
      | @cons _ y _ ys hxy hmore =>
          rw [moves] at hentry
          rcases List.mem_cons.mp hentry with rfl | hentry
          · exact ⟨x, y, _, List.mem_cons_self, hxy, rfl⟩
          · obtain ⟨x', y', s', hmem, hrest⟩ := ih hmore hentry
            exact ⟨x', y', s', List.mem_cons_of_mem _ hmem, hrest⟩

theorem frames_of_mem_zip {before : List Char} {x : Spaced} {s : Span}
    (h : (x, s) ∈ xs.zip (spansOf (Location.start.walk before) xs)) :
    s.Frames (before ++ (textOf xs ++ tail)) x.word := by
  induction xs generalizing before with
  | nil => cases h
  | cons y xs ih =>
      rcases List.mem_cons.mp h with hhead | h
      · obtain ⟨rfl, rfl⟩ := Prod.mk.inj hhead
        refine ⟨before ++ x.blanks, textOf xs ++ tail, ?_, ?_⟩
        · simp [Spaced.text]
        · rw [Spaced.span, Location.walk_append]
      · rw [← Location.walk_append] at h
        have hrest := ih h
        rwa [textOf_cons, List.append_assoc y.text, ← List.append_assoc before]

end Spaced

/-- The token as it is found in a table by its place. -/
def Token.lookup (table : List (Span × (Token → Token))) (t : Token) : Token :=
  (table.lookup t.span).getD id t

theorem Token.lookup_of_mem {table : List (Span × (Token → Token))}
    (hnodup : (table.map Prod.fst).Nodup) {entry : Span × (Token → Token)}
    (hentry : entry ∈ table) {t : Token} (ht : t.span = entry.1) : t.lookup table = entry.2 t := by
  rw [lookup, ht, (lookup_iff_mem hnodup).mpr hentry, Option.getD_some]

theorem FunctionDecl.mapTokens_id (d : FunctionDecl) : d.mapTokens id = d := by
  rw [mapTokens, Signature.mapTokens_id, Block.mapTokens_id, id]

/-- What becomes of the tokens of a layout in another one. -/
def Layout.carry (l l' : Layout) : Token → Token :=
  Token.lookup (moves .start .start l.lexemes l'.lexemes)

theorem Position.start_text (l : Layout) :
    (start l.text).rest = textOf l.lexemes ++ l.blanks := by
  rw [start, Layout.text, String.toList_ofList]

/-- In other spellings a text is read to the same program, with its tokens carried over. -/
theorem Derivation.Derives.respelled {program : Program} {layout other : Layout}
    (h : Derives layout.text program layout.spans)
    (hother : layout.Respelled program.numbers other) :
    Derives other.text ⟨program.declarations.map (·.mapTokens (layout.carry other))⟩
      other.spans := by
  obtain ⟨q, hdecls, hblank⟩ := h
  obtain ⟨xs, hleads, hspans, hcarried⟩ :=
    carried_declarations (v := ⟨layout.carry other, id⟩) hdecls
  obtain ⟨rfl, hq⟩ : layout.lexemes = xs ∧ layout.blanks = q.rest :=
    spansOf_inj ((Position.start_text layout).symm.trans hleads.rest) hspans.symm
  have hnodup : ((moves .start .start layout.lexemes other.lexemes).map Prod.fst).Nodup := by
    rw [map_fst_moves hother.lexemes]
    exact nodup_spansOf _ _
  have hrelays : Relays ⟨layout.carry other, id⟩ q.rest other.blanks .start .start
      layout.lexemes other.lexemes := by
    rw [hother.blanks, hq]
    exact relays_of_respelled hother.lexemes fun entry hentry t ht =>
      Token.lookup_of_mem hnodup hentry ht
  obtain ⟨decls, hdecls', hlook⟩ := hcarried other.lexemes (.start other.text)
    ⟨Location.start.walk (textOf other.lexemes), other.blanks⟩ ⟨Position.start_text other, rfl⟩
    hrelays
  obtain rfl : decls = program.declarations.map (·.mapTokens (layout.carry other)) := by
    simpa only [FunctionDecl.mapTokens_id, List.map_id'] using hlook
  exact ⟨_, hdecls', other.isBlank_of_mem⟩

/-- Only the texts of number literals change, and their values do not. -/
theorem Layout.Respelled.kept {program : Program} {layout other : Layout}
    (hparse : Program.parse layout.text = .ok program)
    (hother : layout.Respelled program.numbers other) :
    ∀ entry ∈ program.marked, Token.Kept (layout.carry other) entry := by
  rintro ⟨t, isNumber⟩ hentry
  rcases hlookup : (moves .start .start layout.lexemes other.lexemes).lookup t.span with _ | g
  · have hcarry : layout.carry other t = t := by
      rw [carry, Token.lookup, hlookup, Option.getD_none, id]
    cases isNumber <;> rw [Token.Kept, hcarry]
  · obtain ⟨x, y, s', hmem, hxy, rfl⟩ :=
      exists_of_mem_moves hother.lexemes (mem_of_lookup hlookup)
    have hcarry : (layout.carry other t).text =
        if y.word = x.word then t.text else String.ofList y.word := by
      rw [carry, Token.lookup, hlookup, Option.getD_some, move]
    by_cases hsame : y.word = x.word
    · rw [if_pos hsame] at hcarry
      cases isNumber <;> rw [Token.Kept, hcarry]
    rw [if_neg hsame] at hcarry
    obtain ⟨hword, u, hu, hspan⟩ := hxy.word.resolve_left hsame
    cases isNumber with
    | false => exact absurd hspan (Program.span_ne_of_marked hparse hu hentry)
    | true =>
        obtain ⟨word, _, -, htext, hframes⟩ :=
          Program.reads_of_numbers hparse (Program.mem_numbers.mpr hentry)
        have hframes' : t.span.Frames ([] ++ (textOf layout.lexemes ++ layout.blanks)) x.word :=
          frames_of_mem_zip hmem
        rw [List.nil_append, ← Position.start_text] at hframes'
        obtain rfl := hframes.unique hframes'
        rw [Token.Kept, hcarry, htext, String.toList_ofList, String.toList_ofList]
        exact hword.numberValue?_eq

/-- Another spelling of some number literals, with underscores put in or left out, is read as well,
and it is emitted to the same module, or fails as well. -/
theorem Program.parse_respelled {program : Program} {layout other : Layout}
    (hparse : Program.parse layout.text = .ok program)
    (hderives : Derives layout.text program layout.spans)
    (hother : layout.Respelled program.numbers other) :
    ∃ program', Program.parse other.text = .ok program' ∧ ∀ width name triple,
      (Emitter.new program' width name triple).emit.1.toOption =
        (Emitter.new program width name triple).emit.1.toOption ∧
      (Emitter.new program' width name triple).emit.2.module =
        (Emitter.new program width name triple).emit.2.module := by
  refine ⟨_, Program.parse_of_derives (hderives.respelled hother), fun width name triple => ?_⟩
  obtain ⟨hresult, hsame⟩ :=
    (Program.like_mapTokens (hother.kept hparse)).emit width name triple
  exact ⟨hresult.toOption_eq, hsame.module⟩

end KestrelCompiler
