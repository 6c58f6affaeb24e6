import KestrelCompiler.Proofs.Meaning.Expression

/-!
Scopes and liveness. Lowering keeps the names and the string literals of the live text, and it closes
the current block exactly where the rest of a list of statements is dead.
-/

namespace KestrelCompiler

open Ir (Ty Value Instruction StringConstant)

/-- What a build has of a function with this result and these parameters, at a place with the
scope `s`. -/
structure Matches (ret : Ty) (types : List Ty) (s : Scope) (b : Build) : Prop where
  ret : b.draft.ret = ret
  parameters : b.draft.parameters.map (·.type) = types
  bindings : BindingsFit types b.draft.bindings
  names : NamesMatch s.names b.draft.bindings
  literals : b.strings.map (·.text) = s.literals

theorem NamesMatch.cons {names : List (String × Nat)} {bindings : List (String × Value)}
    (h : NamesMatch names bindings) (name : String) (position : Nat) (type : Ty) :
    NamesMatch ((name, position) :: names) ((name, ⟨type, .parameter position⟩) :: bindings) := by
  intro other
  rw [List.lookup_cons, List.lookup_cons]
  split
  · rfl
  · exact h other

variable {width : Nat} {ret : Ty} {types : List Ty} {s : Scope} {b b' : Build}

namespace Matches

theorem length_literals (h : Matches ret types s b) : b.strings.length = s.literals.length := by
  rw [← h.literals, List.length_map]

theorem emit {e : Expr} {code : List Instruction} {texts : List StringConstant} {v : Value}
    (h : Matches ret types s b)
    (he : Compiles width b.draft.bindings b.draft.count b.strings.length e code texts v)
    (more : List Instruction) :
    Matches ret types (e.after s) (b.emit (code ++ more) texts) := by
  rw [he.after s]
  refine ⟨h.ret, h.parameters, h.bindings, h.names, ?_⟩
  rw [Build.emit, List.map_append, h.literals]

theorem congr (h : Matches ret types s b) (hdraft : b'.draft = b.draft)
    (hstrings : b'.strings = b.strings) : Matches ret types s b' := by
  refine ⟨?_, ?_, ?_, ?_, hstrings ▸ h.literals⟩
  all_goals rw [hdraft]
  · exact h.ret
  · exact h.parameters
  · exact h.bindings
  · exact h.names

theorem withDraft (h : Matches ret types s b) {f : Draft → Draft}
    (hret : (f b.draft).ret = b.draft.ret)
    (hparameters : (f b.draft).parameters = b.draft.parameters)
    (hbindings : (f b.draft).bindings = b.draft.bindings) :
    Matches ret types s (b.withDraft f) where
  ret := hret.trans h.ret
  parameters := (congrArg _ hparameters).trans h.parameters
  bindings := by
    rw [Build.withDraft, hbindings]
    exact h.bindings
  names := by
    rw [Build.withDraft, hbindings]
    exact h.names
  literals := h.literals

theorem leave (h : Matches ret types s b) (next position : Nat) :
    Matches ret types s (b.withDraft (·.leave next position)) := by
  refine h.withDraft ?_ ?_ ?_ <;>
  · rw [Draft.leave, Draft.enter, Draft.proceed]
    split <;> rfl

theorem bindAll (args : List Token) (parameters : List Ir.Parameter) {k : Nat}
    (hlength : args.length ≤ parameters.length) (hk : types.drop k = parameters.map (·.type))
    (h : Matches ret types s b) :
    Matches ret types ((args.zipIdx k).foldl Scope.name s)
      (b.withDraft (·.bindAll (args.zip (parameters.zipIdx k)))) := by
  induction args generalizing parameters k s b with
  | nil => exact h
  | cons arg rest ih =>
      cases parameters with
      | nil => cases hlength
      | cons p parameters =>
          have htype : types[k]? = some p.type := by
            rw [← List.head?_drop, hk]
            rfl
          have hbind : Matches ret types (s.name (arg, k))
              (b.withDraft (·.bind arg.text k p.type)) :=
            ⟨h.ret, (map_type_bind _ _ _ _).trans h.parameters, h.bindings.bind htype _,
              h.names.cons _ _ _, h.literals⟩
          refine ih parameters (Nat.le_of_succ_le_succ hlength) ?_ hbind
          rw [← List.tail_drop, hk]
          rfl

/-- A directive names parameters on both sides. -/
theorem directive (h : Matches ret types s b) {args : List Token}
    (hlength : args.length ≤ b.draft.parameters.length) :
    Matches ret types (s.bind args)
      (b.withDraft (·.bindAll (args.zip b.draft.parameters.zipIdx))) :=
  h.bindAll args b.draft.parameters hlength h.parameters.symm

end Matches

theorem isClosed_bindAll (d : Draft) (names : List (Token × Ir.Parameter × Nat)) :
    (d.bindAll names).isClosed = d.isClosed := by
  obtain ⟨hblocks, hcurrent, -⟩ := Draft.blocks_bindAll d names
  rw [Draft.isClosed, Draft.isClosed, Draft.currentBlock?, Draft.currentBlock?, hblocks, hcurrent]

/-- Behind a return nothing is added. -/
theorem LowersItems.of_closed {items : List Stmt} (h : LowersItems width items b b')
    (hclosed : b.draft.isClosed = true) : b'.draft = b.draft ∧ b'.strings = b.strings := by
  cases h with
  | nil => exact ⟨rfl, rfl⟩
  | unreachable events _ => exact ⟨rfl, rfl⟩
  | cons hopen _ _ =>
      rw [hopen] at hclosed
      cases hclosed

mutual

theorem LowersBlock.matches {block : Block} {s : Scope} {b b' : Build} :
    LowersBlock width block b b' → b.draft.IsOpen → Matches ret types s b →
      Matches ret types (block.after s) b' ∧ b'.draft.isClosed = block.closes
  | .mk hitems, hopen, h => hitems.matches hopen h

theorem LowersItems.matches {items : List Stmt} {s : Scope} {b b' : Build} :
    LowersItems width items b b' → b.draft.IsOpen → Matches ret types s b →
      Matches ret types (itemsAfter s items) b' ∧ b'.draft.isClosed = itemsClose items
  | .nil, hopen, h => ⟨h, hopen.not_closed⟩
  | .unreachable _ hclosed, hopen, _ => by
    rw [hopen.not_closed] at hclosed
    cases hclosed
  | @LowersItems.cons _ item rest _ b₁ _ _ hitem hrest, hopen, h => by
    obtain ⟨hmatches, hcloses⟩ := hitem.matches hopen h
    rw [itemsAfter, itemsClose, ← hcloses]
    cases hclosed : b₁.draft.isClosed with
    | true =>
        obtain ⟨hdraft, hstrings⟩ := hrest.of_closed hclosed
        exact ⟨hmatches.congr hdraft hstrings, hdraft ▸ hclosed⟩
    | false =>
        have hopen₁ : b₁.draft.IsOpen := ⟨(hitem.extends hopen).inside, hclosed⟩
        exact hrest.matches hopen₁ hmatches

theorem Lowers.matches {stmt : Stmt} {s : Scope} {b b' : Build} :
    Lowers width stmt b b' → b.draft.IsOpen → Matches ret types s b →
      Matches ret types (stmt.after s) b' ∧ b'.draft.isClosed = stmt.closes
  | .block hbody, hopen, h => hbody.matches hopen h
  | .ifThen c code test he _ hyes, hopen, h => by
    have hcode := Draft.isOpen_append hopen (code ++ test)
    have hfork := (Draft.extends_forkThen hcode c).2.isOpen
    have hmatches := (h.emit he test).withDraft (f := (·.forkThen c)) rfl rfl rfl
    have hyesMatches := (hyes.matches hfork hmatches).1
    have hleave := (Draft.extends_leave_forkThen hcode (hyes.extends hfork.inside)).2.isOpen
    rw [Draft.length_blocks_append] at hleave
    exact ⟨hyesMatches.leave _ _, hleave.not_closed⟩
  | .ifElse c code test he _ hyes hno, hopen, h => by
    have hcode := Draft.isOpen_append hopen (code ++ test)
    have hfork := (Draft.extends_forkElse hcode c).2.isOpen
    have hmatches := (h.emit he test).withDraft (f := (·.forkElse c)) rfl rfl rfl
    have hyesMatches := (hyes.matches hfork hmatches).1
    have hextends := hyes.extends hfork.inside
    have hleave := (Draft.extends_leave_yes hcode hextends).2.isOpen
    rw [Draft.length_blocks_append] at hleave
    have hnoMatches := (hno.matches hleave (hyesMatches.leave _ _)).1
    have hend := (Draft.extends_leave_no hcode hextends (by
      rw [Draft.length_blocks_append]
      exact hno.extends hleave.inside)).2.isOpen
    rw [Draft.length_blocks_append] at hend
    exact ⟨hnoMatches.leave _ _, hend.not_closed⟩
  | .ret code coerce _ hvalue _, hopen, h => by
    have hcode := Draft.isOpen_append hopen (code ++ coerce)
    refine ⟨(h.emit hvalue coerce).withDraft (f := (·.close _)) rfl rfl rfl, ?_⟩
    exact Draft.isClosed_close hcode.inside _
  | .directive hlength, hopen, h => by
    exact ⟨h.directive hlength, (isClosed_bindAll _ _).trans hopen.not_closed⟩

end

end KestrelCompiler
