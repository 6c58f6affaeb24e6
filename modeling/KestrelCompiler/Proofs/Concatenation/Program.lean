import KestrelCompiler.Proofs.Concatenation.Extension
import KestrelCompiler.Proofs.Concatenation.Rules

/-!
Sources one behind the other. The first one is read as it is alone, since no declaration looks
behind its closing brace; the second one is read as it is alone as well, save that all its points
are moved.
-/

namespace KestrelCompiler

open KestrelCompiler.Derivation Position

/-- Blanks at the end are passed over together with those of the text that follows. -/
theorem Position.skip_append {p : Position} (h : ∀ c ∈ p.rest, Text.isBlank c = true)
    (text : List Char) :
    (p.append text).skip = (Position.mk (p.location.walk p.rest) text).skip := by
  simp only [skip, append, List.takeWhile_append_of_pos h, List.dropWhile_append_of_pos h,
    Location.walk_append]

/-- A source that was read leads to its end. -/
theorem Derivation.DeclarationsAt.location_end {source : String} {decls : List FunctionDecl}
    {spans : List Span} {q : Position} (h : DeclarationsAt (.start source) decls spans q) :
    q.location.walk q.rest = Location.start.walk source.toList := by
  have hstart : Position.start source = Leaf.At source.toList 0 := rfl
  obtain ⟨j, -, rfl, -⟩ := h.lays.inOrder hstart (Nat.zero_le _)
  rw [Leaf.At, Location.point, ← Location.walk_append, List.take_append_drop]

namespace Cursor

variable {c d : Cursor} {p : Position}

theorem At.skipBlank_eq (hc : c.At p) (hd : d.At p) (h : c.source = d.source) :
    c.skipBlank = d.skipBlank := by
  have hlocation := hc.location_skipBlank.trans hd.location_skipBlank.symm
  cases c
  cases d
  simp_all [Cursor.skipBlank, moveTo]

theorem At.congr {q : Position} (hc : c.At p) (h : p.skip = q.skip) : c.At q :=
  ⟨hc.1, hc.2.trans h⟩

end Cursor

namespace Rule

/-- The next declaration is looked for after the blanks. -/
theorem declarations_congr {c d : Cursor} (h : c.skipBlank = d.skipBlank)
    (decls : List FunctionDecl) : declarations decls c = declarations decls d := by
  rw [declarations_eq, declarationsStep]
  change Rule.bind hasMore _ c = Rule.bind hasMore _ d
  rw [Rule.bind, Rule.bind, hasMore_apply, hasMore_apply, h]

/-- Declarations that stand ahead are read, and the rule goes on behind them. -/
theorem declarations_runs {decls : List FunctionDecl} {spans : List Span} {p q : Position}
    (h : DeclarationsAt p decls spans q) (first : List FunctionDecl) {c : Cursor} (hc : c.At p) :
    ∃ d, d.At q ∧ d.source = c.source ∧ declarations first c = declarations (first ++ decls) d := by
  induction h generalizing first c with
  | none => exact ⟨c, hc, rfl, by rw [List.append_nil]⟩
  | @more _ _ _ decl rest _ _ hdecl _ ih =>
      obtain ⟨ch, hch, -⟩ := hdecl.next?
      obtain ⟨c₁, hmore, hc₁⟩ := gives_hasMore c hc
      rw [Option.isSome_of_mem hch] at hmore
      obtain ⟨c₂, hnext, hc₂⟩ := gives_required (gives_declaration hdecl) .declaration c₁ hc₁
      obtain ⟨d, hd, hsource, hrun⟩ := ih (first ++ [decl]) hc₂
      have hfirst := (forward_hasMore c).1
      have hsecond := (forward_required forward_declaration .declaration c₁).1
      rw [hmore] at hfirst
      rw [hnext] at hsecond
      refine ⟨d, hd, hsource.trans (hsecond.trans hfirst), ?_⟩
      rw [declarations_eq, declarationsStep, bind_of_matched hmore, if_pos rfl,
        bind_of_matched hnext, hrun, List.append_assoc]
      rfl

theorem program_apply (c : Cursor) :
    Rule.program c = ((declarations [] c).1.map Program.mk, (declarations [] c).2) := by
  change Rule.bind _ _ c = _
  rw [Rule.bind]
  rcases declarations [] c with ⟨decls | - | p, c'⟩ <;> rfl

end Rule

/-- Sources concatenate. Behind a source that is read, another one is read as it is alone: its
declarations come after those of the first, or its fault is the one of the whole, and all its points
are moved by the first source. -/
theorem Program.parse_append {s₁ s₂ : String} {program : Program}
    (h : Program.parse s₁ = .ok program) :
    Program.parse (s₁ ++ s₂) =
      match Program.parse s₂ with
      | .ok more => .ok ⟨program.declarations ++ more.declarations.map (·.behind s₁.toList)⟩
      | .error problem => .error (problem.behind s₁.toList) := by
  obtain ⟨spans, q, hderives, hblank⟩ := Program.derives_of_parse h
  have hlonger := hderives.append s₂.toList
  have hstart : (Position.start s₁).append s₂.toList = .start (s₁ ++ s₂) := by
    rw [Position.start, Position.append, Position.start, String.toList_append]
  rw [hstart] at hlonger
  obtain ⟨c, hc, hsource, hrun⟩ := Rule.declarations_runs hlonger [] (Cursor.at_start (s₁ ++ s₂))
  -- the cursor behind the first source and the one of the second source, moved, differ by blanks
  have hend := skip_append hblank s₂.toList
  rw [hderives.location_end] at hend
  have hmoved : (Cursor.behind s₁.toList (.ofString s₂)).position =
      ⟨Location.start.walk s₁.toList, s₂.toList⟩ := by
    have hrest : (Cursor.behind s₁.toList (.ofString s₂)).rest = s₂.toList :=
      Cursor.rest_behind s₁.toList Location.inside_start
    rw [Cursor.position, hrest]
    exact congrArg (Position.mk · s₂.toList) Location.behind_start
  have hbehind : (Cursor.behind s₁.toList (.ofString s₂)).At
      ⟨Location.start.walk s₁.toList, s₂.toList⟩ := by
    rw [← hmoved]
    exact Cursor.At.self (Cursor.nonneg_behind s₁.toList Location.inside_start)
  have hblanks := (hc.congr hend).skipBlank_eq hbehind (hsource.trans String.toList_append)
  have hparallel : Rule.Parallel s₁.toList _ _ _ :=
    Rule.parallel_declarations program.declarations []
  have hsecond := (hparallel (.ofString s₂) Location.inside_start).2
  rw [List.map_nil, List.append_nil] at hsecond
  rw [Program.parse, Program.parse, Rule.program_apply, Rule.program_apply, hrun, List.nil_append,
    Rule.declarations_congr hblanks, hsecond]
  rcases Rule.declarations [] (.ofString s₂) with ⟨decls | - | p, d⟩ <;> rfl

/-- The second declaration begins on a line of its own, and its body on the next one. -/
theorem Program.parse_append_lines : ∃ program more,
    Program.parse "f() \x7b\x7d\n" = .ok program ∧ Program.parse "g()\n\x7b\x7d" = .ok more ∧
      Program.parse ("f() \x7b\x7d\n" ++ "g()\n\x7b\x7d") =
        .ok ⟨program.declarations ++
          more.declarations.map (·.behind "f() \x7b\x7d\n".toList)⟩ := by
  have hfirst : (Program.parse "f() \x7b\x7d\n").isOk = true := by decide +kernel
  have hsecond : (Program.parse "g()\n\x7b\x7d").isOk = true := by decide +kernel
  cases hprogram : Program.parse "f() \x7b\x7d\n" with
  | error problem =>
      rw [hprogram] at hfirst
      cases hfirst
  | ok program =>
      have hall := @Program.parse_append _ "g()\n\x7b\x7d" _ hprogram
      cases hmore : Program.parse "g()\n\x7b\x7d" with
      | error problem =>
          rw [hmore] at hsecond
          cases hsecond
      | ok more =>
          rw [hmore] at hall
          exact ⟨program, more, rfl, rfl, hall⟩

end KestrelCompiler
