import KestrelCompiler.Proofs.Numerals.Literal
import KestrelCompiler.Proofs.Occurrences.Site

/-!
Numbers that cannot be read. The first fault that is met stops the emission, and expressions and
statements are looked at in the order of the source. So a number literal that cannot be read stops
it with its own fault, unless a declaration or something before the literal has done so already.
-/

namespace KestrelCompiler

open Ir (Ty Value Instruction StringConstant)
open Lower

/-- It stops with the fault of the number literal or with one that stands before it. -/
def StopsBy (t : Token) {α : Type} (r : Except LoweringStop α) : Prop :=
  ∃ f : LoweringFault, r = .error f ∧
    (f = ⟨.invalidNumber t.text, t.span.start⟩ ∨ f.location < t.span.start)

/-- Each token starts before those that follow it. -/
def Token.Ordered (tokens : List Token) : Prop :=
  tokens.Pairwise fun t u => t.span.start < u.span.start

section Order

variable {before after : List Token} {t : Token}

theorem Token.Ordered.left (h : Ordered (before ++ after)) : Ordered before :=
  (List.pairwise_append.mp h).1

theorem Token.Ordered.right (h : Ordered (before ++ after)) : Ordered after :=
  (List.pairwise_append.mp h).2.1

theorem Token.Ordered.tail (h : Ordered (t :: after)) : Ordered after :=
  (List.pairwise_cons.mp h).2

theorem Token.Ordered.lt (h : Ordered (before ++ after)) {l : Location} (hl : l.Starts before)
    (ht : t ∈ after) : l < t.span.start := by
  obtain ⟨u, hu, rfl⟩ := hl
  exact (List.pairwise_append.mp h).2.2 u hu t ht

end Order

section Tokens

variable {t : Token} {s s' : Scope}

theorem Expr.mem_marked_of_occurrence {e : Expr} (h : ⟨s', .number t⟩ ∈ e.occurrences s) :
    (t, true) ∈ e.marked := by
  induction e generalizing s with
  | number token =>
      obtain ⟨-, rfl⟩ : s' = s ∧ t = token := by simpa [occurrences] using h
      exact List.mem_singleton_self _
  | string _ | name _ => simp [occurrences] at h
  | binary operation left op right ihl ihr =>
      rw [marked, List.mem_append, List.mem_cons]
      simp only [occurrences, List.mem_append, List.mem_singleton, Occurrence.mk.injEq,
        reduceCtorEq, and_false, or_false] at h
      exact h.imp ihl fun h => .inr (ihr h)

mutual

theorem Block.mem_marked_of_occurrence {s : Scope} : ∀ b : Block,
    ⟨s', .number t⟩ ∈ b.occurrences s → (t, true) ∈ b.marked
  | .mk left items right, h => by
    rw [Block.marked, List.mem_cons, List.mem_append]
    exact .inr (.inl (mem_marked_of_itemsOccurrence items h))

theorem mem_marked_of_itemsOccurrence {s : Scope} : ∀ items : List Stmt,
    ⟨s', .number t⟩ ∈ itemsOccurrences s items → (t, true) ∈ Stmt.markedOf items
  | [], h => by
    rw [itemsOccurrences] at h
    cases h
  | item :: rest, h => by
    rw [Stmt.markedOf, List.mem_append]
    rw [itemsOccurrences, List.mem_append] at h
    refine h.imp (Stmt.mem_marked_of_occurrence item) fun h => ?_
    split at h
    · cases h
    · exact mem_marked_of_itemsOccurrence rest h

theorem Stmt.mem_marked_of_occurrence {s : Scope} : ∀ stmt : Stmt,
    ⟨s', .number t⟩ ∈ stmt.occurrences s → (t, true) ∈ stmt.marked
  | .block body, h => Block.mem_marked_of_occurrence body h
  | .ifThen keyword condition yes, h => by
    rw [Stmt.occurrences, List.mem_append] at h
    rw [Stmt.marked, List.mem_cons, List.mem_append]
    exact .inr (h.imp Expr.mem_marked_of_occurrence (Block.mem_marked_of_occurrence yes))
  | .ifElse keyword condition yes no, h => by
    rw [Stmt.occurrences, List.mem_append, List.mem_append, or_assoc] at h
    rw [Stmt.marked, List.mem_cons, List.mem_append, List.mem_append]
    exact .inr (h.imp Expr.mem_marked_of_occurrence
      (Or.imp (Block.mem_marked_of_occurrence yes) (Block.mem_marked_of_occurrence no)))
  | .ret marker value, h => by
    rw [Stmt.marked, List.mem_cons]
    exact .inr (Expr.mem_marked_of_occurrence h)
  | .directive _ _ _, h => absurd h List.not_mem_nil

end

theorem Expr.mem_tokens_of_occurrence {e : Expr} (h : ⟨s', .number t⟩ ∈ e.occurrences s) :
    t ∈ e.tokens := by
  rw [← e.map_fst_marked]
  exact List.mem_map_of_mem (mem_marked_of_occurrence h)

theorem Block.mem_tokens_of_occurrence {b : Block} (h : ⟨s', .number t⟩ ∈ b.occurrences s) :
    t ∈ b.tokens := by
  rw [← b.map_fst_marked]
  exact List.mem_map_of_mem (b.mem_marked_of_occurrence h)

theorem mem_tokens_of_itemsOccurrence {items : List Stmt}
    (h : ⟨s', .number t⟩ ∈ itemsOccurrences s items) : t ∈ items.flatMap Stmt.tokens := by
  rw [← Stmt.map_fst_markedOf]
  exact List.mem_map_of_mem (mem_marked_of_itemsOccurrence items h)

theorem FunctionDecl.mem_marked_of_occurrence {literals : List String} {d : FunctionDecl}
    (h : ⟨s', .number t⟩ ∈ d.occurrences literals) : (t, true) ∈ d.marked := by
  rw [marked, List.mem_cons, List.mem_append]
  exact .inr (.inr (d.body.mem_marked_of_occurrence h))

theorem FunctionDecl.mem_tokens_of_occurrence {literals : List String} {d : FunctionDecl}
    (h : ⟨s', .number t⟩ ∈ d.occurrences literals) : t ∈ d.tokens := by
  rw [← d.map_fst_marked]
  exact List.mem_map_of_mem (mem_marked_of_occurrence h)

/-- Live number literals are number literals of the program. -/
theorem Program.mem_numbers_of_occurrence {p : Program} {literals : List String} {i : Nat}
    {d : FunctionDecl} (hd : p.declarations[i]? = some d)
    (h : ⟨s', .number t⟩ ∈ d.occurrences literals) : t ∈ p.numbers :=
  Program.mem_numbers.mpr (List.mem_flatMap.mpr
    ⟨d, List.mem_of_getElem? hd, FunctionDecl.mem_marked_of_occurrence h⟩)

end Tokens

namespace StopsBy

variable {t : Token} {α β : Type} {written : Prop} {faults : LoweringFault → Prop} {x : Lower α}
  {next : α → Lower β} {b : Build}

theorem bind (h : StopsBy t (x b).1) : StopsBy t ((x >>= next) b).1 := by
  obtain ⟨f, hf, hplace⟩ := h
  rcases hx : x b with ⟨stop | a, b'⟩
  · rw [Step.bind_of_error hx]
    rw [hx] at hf
    cases hf
    exact ⟨_, rfl, hplace⟩
  · rw [hx] at hf
    cases hf

/-- The faults of the first step stand before the literal. -/
theorem after (h : Decides written (x b).1 faults)
    (hbefore : ∀ f, faults f → f.location < t.span.start)
    (hnext : ∀ a b', x b = (.ok a, b') → StopsBy t (next a b').1) :
    StopsBy t ((x >>= next) b).1 := by
  rcases hx : x b with ⟨stop | a, b'⟩
  · rw [Step.bind_of_error hx]
    rw [hx] at h
    obtain ⟨f, rfl, hf, -⟩ := h.exists_fault
    exact ⟨f, rfl, .inr (hbefore f hf)⟩
  · rw [Step.bind_of_ok hx]
    exact hnext a b' hx

end StopsBy

section Function

variable {width : Nat} {sig : Signature} {ret : Ty} {types : List Ty} {t : Token} {s' : Scope}

theorem Expr.stopsBy {written : Prop} (hsig : sig.Gives written ret types) {e : Expr} {s : Scope}
    {b : Build} (hopen : b.draft.isClosed = false) (hnames : NamesMatch s.names b.draft.bindings)
    (hbindings : BindingsFit types b.draft.bindings) (hbad : numberValue? t.text.toList = none)
    (horder : Token.Ordered e.tokens) (ht : ⟨s', .number t⟩ ∈ e.occurrences s) :
    StopsBy t (e.lower width b).1 := by
  induction e generalizing s b with
  | number token =>
      obtain ⟨-, rfl⟩ : s' = s ∧ t = token := by simpa [occurrences] using ht
      refine ⟨_, ?_, .inl rfl⟩
      unfold lower
      rw [hbad]
      rfl
  | string _ | name _ => simp [occurrences] at ht
  | binary operation left op right ihl ihr =>
      simp only [occurrences, List.mem_append, List.mem_singleton, Occurrence.mk.injEq,
        reduceCtorEq, and_false, or_false] at ht
      rw [tokens_binary] at horder
      rcases ht with ht | ht
      · exact .bind (ihl hopen hnames hbindings horder.left ht)
      · have hright := Expr.mem_tokens_of_occurrence ht
        refine .after (left.decides_lower hsig hopen hnames hbindings) (fun f hf => ?_)
          fun l b₁ hrun => .bind ?_
        · exact horder.lt hf.starts (List.mem_cons_of_mem op hright)
        · obtain ⟨code, texts, hl, rfl⟩ := compiles_of_lower hrun
          rw [← Build.isClosed_emit b code texts] at hopen
          refine ihr hopen ?_ hbindings horder.right.tail ht
          rw [hl.after s]
          exact hnames

variable {s : Scope} {b : Build}

/-- A condition without the literal is lowered and tested before what depends on it. -/
theorem StopsBy.condition {written : Prop} (hsig : sig.Gives written ret types)
    (hopen : b.draft.isClosed = false) (h : Matches ret types s b) {condition : Expr}
    {next : Value → Lower Unit} (hbefore : ∀ f, condition.HasFault sig s f → f.location < t.span.start)
    (hnext : ∀ c code test texts v,
      Compiles width b.draft.bindings b.draft.count b.strings.length condition code texts v →
      Tests (b.draft.count + code.length) v test c →
      StopsBy t (next c (b.emit (code ++ test) texts)).1) :
    StopsBy t ((do
      let c ← truth (← condition.lower width) condition.span.start
      next c : Lower Unit) b).1 := by
  refine .after (condition.decides_lower hsig hopen h.names h.bindings) hbefore
    fun v b₁ hrun => ?_
  obtain ⟨c, code, test, texts, hcode, htest, htruth⟩ := exists_test hsig hopen h hrun _
  rw [Step.bind_of_ok htruth]
  exact hnext c code test texts v hcode htest

mutual

theorem Block.stopsBy (hsig : sig.Gives (Decimal.isWritable width = true) ret types)
    (hbad : numberValue? t.text.toList = none) {s : Scope} {b : Build} : ∀ block : Block,
    b.draft.IsOpen → Matches ret types s b → Token.Ordered block.tokens →
      ⟨s', .number t⟩ ∈ block.occurrences s → StopsBy t (block.lower width b).1
  | .mk left items right, hopen, h, horder, ht => by
    rw [Block.tokens_mk] at horder
    exact stopsBy_lowerItems hsig hbad left.span.start items hopen h horder.tail.left ht

theorem stopsBy_lowerItems (hsig : sig.Gives (Decimal.isWritable width = true) ret types)
    (hbad : numberValue? t.text.toList = none) {s : Scope} {b : Build} (block : Location) :
    ∀ items : List Stmt, b.draft.IsOpen → Matches ret types s b →
      Token.Ordered (items.flatMap Stmt.tokens) → ⟨s', .number t⟩ ∈ itemsOccurrences s items →
        StopsBy t (lowerItems width block items b).1
  | [], _, _, _, ht => by
    rw [itemsOccurrences] at ht
    cases ht
  | item :: rest, hopen, h, horder, ht => by
    rw [List.flatMap_cons] at horder
    rw [itemsOccurrences, List.mem_append] at ht
    rw [lowerItems_of_open hopen.not_closed]
    rcases ht with ht | ht
    · exact .bind (Stmt.stopsBy hsig hbad item hopen h horder.left ht)
    split at ht
    · cases ht
    · next hlive =>
        have hrest := mem_tokens_of_itemsOccurrence ht
        refine .after (Stmt.decides_lower hsig item hopen h)
          (fun f hf => horder.lt hf.starts hrest) fun _ b₁ hrun => ?_
        have hlowers := lowers_of_lower item hopen.not_closed hrun
        obtain ⟨hmatches, hcloses⟩ := hlowers.matches hopen h
        have hopen₁ : b₁.draft.IsOpen :=
          ⟨(hlowers.extends hopen).inside, hcloses.trans (Bool.eq_false_iff.mpr hlive)⟩
        exact stopsBy_lowerItems hsig hbad block rest hopen₁ hmatches horder.right ht

theorem Stmt.stopsBy (hsig : sig.Gives (Decimal.isWritable width = true) ret types)
    (hbad : numberValue? t.text.toList = none) {s : Scope} {b : Build} : ∀ stmt : Stmt,
    b.draft.IsOpen → Matches ret types s b → Token.Ordered stmt.tokens →
      ⟨s', .number t⟩ ∈ stmt.occurrences s → StopsBy t (stmt.lower width b).1
  | .block body, hopen, h, horder, ht => Block.stopsBy hsig hbad body hopen h horder ht
  | .ifThen keyword condition yes, hopen, h, horder, ht => by
    rw [Stmt.tokens_ifThen] at horder
    have horder := horder.tail
    rw [Stmt.occurrences, List.mem_append] at ht
    rcases ht with ht | ht
    · exact .bind (Expr.stopsBy hsig hopen.not_closed h.names h.bindings hbad horder.left ht)
    have hyes := Block.mem_tokens_of_occurrence ht
    refine .condition hsig hopen.not_closed h (fun f hf => horder.lt hf.starts hyes)
      fun c code test texts v he htest => ?_
    have hcode := Draft.isOpen_append hopen (code ++ test)
    rw [forkThen_eq c _ hcode.not_closed]
    have hfork := (Draft.extends_forkThen hcode c).2.isOpen
    have hmatches := (h.emit he test).withDraft (f := (·.forkThen c)) rfl rfl rfl
    exact .bind (Block.stopsBy hsig hbad yes hfork hmatches horder.right ht)
  | .ifElse keyword condition yes no, hopen, h, horder, ht => by
    rw [Stmt.tokens_ifElse] at horder
    have horder := horder.tail
    rw [Stmt.occurrences, List.mem_append, List.mem_append, or_assoc] at ht
    rcases ht with ht | ht
    · exact .bind (Expr.stopsBy hsig hopen.not_closed h.names h.bindings hbad horder.left ht)
    have hbranch : t ∈ yes.tokens ++ no.tokens := List.mem_append.mpr
      (ht.imp Block.mem_tokens_of_occurrence Block.mem_tokens_of_occurrence)
    refine .condition hsig hopen.not_closed h (fun f hf => horder.lt hf.starts hbranch)
      fun c code test texts v he htest => ?_
    have hcode := Draft.isOpen_append hopen (code ++ test)
    rw [forkElse_eq c _ _ hcode.not_closed]
    have hfork := (Draft.extends_forkElse hcode c).2.isOpen
    have hmatches := (h.emit he test).withDraft (f := (·.forkElse c)) rfl rfl rfl
    rcases ht with ht | ht
    · exact .bind (Block.stopsBy hsig hbad yes hfork hmatches horder.right.left ht)
    · have hno := Block.mem_tokens_of_occurrence ht
      refine .after (Block.decides_lower hsig yes hfork hmatches)
        (fun f hf => horder.right.lt hf.starts hno) fun _ b₁ hrun => ?_
      have hlowers := lowersBlock_of_lower yes hrun
      have hleave := (Draft.extends_leave_yes hcode (hlowers.extends hfork.inside)).2.isOpen
      have hstops := Block.stopsBy hsig hbad no hleave
        ((hlowers.matches hfork hmatches).1.leave _ _) horder.right.right ht
      rw [update_bind]
      exact .bind hstops
  | .ret marker value, hopen, h, horder, ht => by
    rw [Stmt.tokens_ret] at horder
    have hvalue := Expr.mem_tokens_of_occurrence ht
    rw [Stmt.lower, lowerReturn, draft_bind]
    split
    · exact ⟨_, rfl, .inr ((List.pairwise_cons.mp horder).1 t hvalue)⟩
    · exact .bind (Expr.stopsBy hsig hopen.not_closed h.names h.bindings hbad horder.tail ht)
  | .directive _ _ _, _, _, _, ht => absurd ht List.not_mem_nil

end

theorem FunctionDecl.stopsBy {d : FunctionDecl} {literals : List String}
    {strings : List StringConstant} (hsignature : d.signature.lower width = .ok (ret, types))
    (hstrings : strings.map (·.text) = literals) (events : List Event)
    (hbad : numberValue? t.text.toList = none) (horder : Token.Ordered d.tokens)
    (ht : ⟨s', .number t⟩ ∈ d.occurrences literals) :
    StopsBy t (d.lower width
      ⟨Draft.start ret (Emitter.parametersOf types), strings, events⟩).1 := by
  obtain ⟨name, signature, body⟩ := d
  rw [FunctionDecl.tokens_mk] at horder
  rw [FunctionDecl.lower, Step.bind_of_ok
    (show Lower.note (.lowering name.text) _ = (.ok (), Build.mk _ strings _) from rfl)]
  exact .bind (Block.stopsBy (Signature.gives_of_lower hsignature) hbad body
    (Draft.isOpen_start ret (Emitter.parametersOf types)) (.start hstrings) horder.tail.right ht)

end Function

theorem FunctionDecl.starts_of_body {d : FunctionDecl} {sig : Signature} {s : Scope}
    {f : LoweringFault} (h : d.body.HasFault sig s f) : f.location.Starts d.tokens := by
  obtain ⟨name, signature, body⟩ := d
  rw [tokens_mk, Location.starts_cons, Location.starts_append]
  exact .inr (.inr h.starts)

namespace Emitter

variable {t : Token} {s' : Scope}

/-- The functions before that of the literal are defined first. -/
theorem stopsBy_defineAll {e : Emitter} {declarations : List FunctionDecl}
    {done todo : List Ir.Function} {literals : List String}
    (hfunctions : e.module.functions = done ++ todo)
    (hdeclares : List.Forall₂ (Declares e.width) declarations todo)
    (hnames : ((done ++ todo).map (·.name)).Nodup)
    (hstrings : e.module.strings.map (·.text) = literals)
    (hbad : numberValue? t.text.toList = none)
    (horder : Token.Ordered (declarations.flatMap FunctionDecl.tokens)) {i : Nat}
    {d : FunctionDecl} (hd : declarations[i]? = some d)
    (ht : ⟨s', .number t⟩ ∈
      d.occurrences ((declarations.take i).foldl FunctionDecl.literalsAfter literals)) :
    StopsBy t (e.defineAll declarations).1 := by
  induction declarations generalizing e done todo literals i with
  | nil => cases hd
  | cons first rest ih =>
      cases hdeclares with
      | cons hf hrest =>
          obtain ⟨ret, types, hsignature, rfl⟩ := hf
          have hindex := findIdx_function hnames
          have hfirst := FunctionDecl.decides_lower hsignature e.module.strings e.events
          unfold defineAll define
          rw [hfunctions, hindex, List.getElem?_append_right (Nat.le_refl _), Nat.sub_self,
            List.getElem?_cons_zero]
          rw [List.flatMap_cons] at horder
          rcases hrun : first.lower e.width ⟨Draft.start ret (parametersOf types),
            e.module.strings, e.events⟩ with ⟨stop | ok, b⟩
          · simp only [hrun]
            rw [hrun] at hfirst
            obtain ⟨f, rfl, hfault, -⟩ := hfirst.exists_fault
            refine ⟨f, rfl, ?_⟩
            cases i with
            | zero =>
                cases hd
                obtain ⟨f', hf', hplace⟩ :=
                  FunctionDecl.stopsBy hsignature hstrings e.events hbad horder.left ht
                rw [hrun] at hf'
                cases hf'
                exact hplace
            | succ i =>
                have hlater : t ∈ rest.flatMap FunctionDecl.tokens := List.mem_flatMap.mpr
                  ⟨d, List.mem_of_getElem? hd, FunctionDecl.mem_tokens_of_occurrence ht⟩
                exact .inr (horder.lt (FunctionDecl.starts_of_body hfault) hlater)
          · simp only [hrun]
            cases i with
            | zero =>
                cases hd
                obtain ⟨f', hf', -⟩ :=
                  FunctionDecl.stopsBy hsignature hstrings e.events hbad horder.left ht
                rw [hrun] at hf'
                cases hf'
            | succ i =>
                have hliterals := (FunctionDecl.realizes_of_lower hstrings hsignature hrun).1
                exact ih (set_length_append done _ _ _) hrest (by simpa using hnames) hliterals
                  horder.right hd ht

theorem emit_of_defineAll {e e₁ : Emitter} {stop : LoweringStop}
    (hdeclare : e.declareAll e.program.declarations = (.ok (), e₁))
    (hdefine : (e₁.defineAll e₁.program.declarations).1 = .error stop) :
    e.emit.1 = .error stop := by
  unfold emit build
  rw [hdeclare]
  dsimp only
  rcases hrun : e₁.defineAll e₁.program.declarations with ⟨f' | ok, e₂⟩
  · rw [hrun] at hdefine
    cases hdefine
    rfl
  · rw [hrun] at hdefine
    cases hdefine

/-- A number that cannot be read stops the emission, if no declaration and nothing before it has
stopped it already. -/
theorem stopsBy_emit {source : String} {program : Program}
    (hparse : Program.parse source = .ok program) (width : Nat) (name triple : String) {i : Nat}
    {d : FunctionDecl} (hd : program.declarations[i]? = some d)
    (ht : ⟨s', .number t⟩ ∈ d.occurrences (literalsOf (program.declarations.take i)))
    (hbad : numberValue? t.text.toList = none) :
    StopsBy t (new program width name triple).emit.1 ∨
      ∃ f : LoweringFault, (new program width name triple).emit.1 = .error f ∧
        DeclarationsHaveFault [] program.declarations f := by
  have hdeclares : Decides True _ _ :=
    decides_declareAll program.declarations (new program width name triple)
  rcases hrun : (new program width name triple).declareAll program.declarations with ⟨stop | ok, e₁⟩
  · rw [hrun] at hdeclares
    obtain ⟨f, rfl, hf, -⟩ := hdeclares.exists_fault
    refine .inr ⟨f, ?_, hf⟩
    unfold emit build
    rw [show (new program width name triple).program = program from rfl, hrun]
  · obtain ⟨declared, hall, hnames, rfl⟩ := declareAll_eq_ok hrun List.nodup_nil
    have horder : Token.Ordered (program.declarations.flatMap FunctionDecl.tokens) := by
      rw [← Program.tokens_part]
      exact Program.tokens_ordered hparse
    have hfunctions : [] ++ declared = [] ++ declared := rfl
    obtain ⟨f, hf, hplace⟩ := stopsBy_defineAll
      (e := { new program width name triple with
        module := { name, triple, functions := [] ++ declared } })
      hfunctions hall hnames rfl hbad horder hd ht
    exact .inl ⟨f, emit_of_defineAll hrun hf, hplace⟩

end Emitter

end KestrelCompiler
