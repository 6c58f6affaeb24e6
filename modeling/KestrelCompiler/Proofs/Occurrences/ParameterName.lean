import KestrelCompiler.Proofs.Occurrences.Site

/-!
Names of parameters. Every directive counts from the first parameter on, so that two names stand for
one parameter where they are at the same position of two directives.
-/

namespace KestrelCompiler

open Ir (Ty Value)

mutual

/-- The names in each of the live directives. -/
def Block.directives : Block → List (List Token)
  | .mk _ items _ => itemsDirectives items

def itemsDirectives : List Stmt → List (List Token)
  | [] => []
  | item :: rest => item.directives ++ if item.closes then [] else itemsDirectives rest

def Stmt.directives : Stmt → List (List Token)
  | .block body => body.directives
  | .ifThen _ _ yes => yes.directives
  | .ifElse _ _ yes no => yes.directives ++ no.directives
  | .ret _ _ => []
  | .directive _ _ args => [args]

end

def FunctionDecl.directives (d : FunctionDecl) : List (List Token) :=
  d.body.directives

/-- The name stands at the position in one of the lists. -/
def Denotes (directives : List (List Token)) (name : String) (position : Nat) : Prop :=
  ∃ args ∈ directives, (args.map (·.text))[position]? = some name

/-- What a list of names binds, the last one first. -/
def boundBy (args : List Token) : List (String × Nat) :=
  (args.zipIdx.map fun entry => (entry.1.text, entry.2)).reverse

/-- What lists of names bind, one list after the other. -/
def boundByAll (directives : List (List Token)) : List (String × Nat) :=
  (directives.reverse.map boundBy).flatten

theorem boundByAll_append (directives more : List (List Token)) :
    boundByAll (directives ++ more) = boundByAll more ++ boundByAll directives := by
  simp [boundByAll]

theorem Scope.names_bind (s : Scope) (args : List Token) :
    (s.bind args).names = boundBy args ++ s.names := by
  rw [bind, boundBy]
  induction args.zipIdx generalizing s with
  | nil => rfl
  | cons entry rest ih =>
      rw [List.foldl_cons, ih, List.map_cons, List.reverse_cons, List.append_assoc]
      rfl

theorem denotes_iff_mem {directives : List (List Token)} {name : String} {position : Nat} :
    Denotes directives name position ↔ (name, position) ∈ boundByAll directives := by
  constructor
  · rintro ⟨args, hargs, hname⟩
    rw [List.getElem?_map] at hname
    obtain ⟨token, htoken, rfl⟩ := Option.map_eq_some_iff.mp hname
    have hbound : (token.text, position) ∈ boundBy args := List.mem_reverse.mpr
      (List.mem_map.mpr ⟨(token, position), List.mem_zipIdx_iff_getElem?.mpr htoken, rfl⟩)
    exact List.mem_flatten.mpr
      ⟨_, List.mem_map.mpr ⟨args, List.mem_reverse.mpr hargs, rfl⟩, hbound⟩
  · intro hmem
    obtain ⟨bound, hbound, hmem⟩ := List.mem_flatten.mp hmem
    obtain ⟨args, hargs, rfl⟩ := List.mem_map.mp hbound
    obtain ⟨⟨token, _⟩, hentry, hsame⟩ := List.mem_map.mp (List.mem_reverse.mp hmem)
    cases hsame
    refine ⟨args, List.mem_reverse.mp hargs, ?_⟩
    rw [List.getElem?_map, List.mem_zipIdx_iff_getElem?.mp hentry]
    rfl

theorem Expr.names_after (e : Expr) (s : Scope) : (e.after s).names = s.names := by
  induction e generalizing s with
  | number _ | name _ | string _ => rfl
  | binary operation left op right ihl ihr => rw [after, ihr, ihl]

mutual

theorem Block.names_after : ∀ (block : Block) (s : Scope),
    (block.after s).names = boundByAll block.directives ++ s.names
  | .mk _ items _, s => names_itemsAfter items s

theorem names_itemsAfter : ∀ (items : List Stmt) (s : Scope),
    (itemsAfter s items).names = boundByAll (itemsDirectives items) ++ s.names
  | [], _ => rfl
  | item :: rest, s => by
    rw [itemsAfter, itemsDirectives, boundByAll_append, List.append_assoc, ← item.names_after]
    split
    · rfl
    · exact names_itemsAfter rest _

theorem Stmt.names_after : ∀ (stmt : Stmt) (s : Scope),
    (stmt.after s).names = boundByAll stmt.directives ++ s.names
  | .block body, s => body.names_after s
  | .ifThen _ condition yes, s => by
    rw [Stmt.after, Stmt.directives, yes.names_after, condition.names_after]
  | .ifElse _ condition yes no, s => by
    rw [Stmt.after, Stmt.directives, no.names_after, yes.names_after, condition.names_after,
      boundByAll_append, List.append_assoc]
  | .ret _ value, s => value.names_after s
  | .directive _ _ args, s => by
    rw [Stmt.after, Stmt.directives, s.names_bind]
    simp [boundByAll]

end

theorem Expr.names_occurrence {e : Expr} {s : Scope} {p : Occurrence} (h : p ∈ e.occurrences s) :
    p.scope.names = s.names := by
  induction e generalizing s with
  | number _ | name _ | string _ => rw [List.mem_singleton.mp h]
  | binary operation left op right ihl ihr =>
      rw [occurrences, List.append_assoc, List.mem_append, List.mem_append] at h
      rcases h with h | h | h
      · exact ihl h
      · rw [ihr h, left.names_after]
      · rw [List.mem_singleton.mp h]

mutual

/-- What is bound at an expression is bound behind the statements around it. -/
theorem Block.names_subset : ∀ (block : Block) (s : Scope), ∀ p ∈ block.occurrences s,
    p.scope.names ⊆ (block.after s).names
  | .mk _ items _, s => names_subset_itemsAfter items s

theorem names_subset_itemsAfter : ∀ (items : List Stmt) (s : Scope),
    ∀ p ∈ itemsOccurrences s items, p.scope.names ⊆ (itemsAfter s items).names
  | [], _ => List.forall_mem_nil _
  | item :: rest, s => by
    have hitem := item.names_subset s
    rw [itemsOccurrences, itemsAfter]
    split
    · rw [List.append_nil]
      exact hitem
    · refine List.forall_mem_append.mpr ⟨fun p hp => ?_, names_subset_itemsAfter rest _⟩
      rw [names_itemsAfter]
      exact List.subset_append_of_subset_right _ (hitem p hp)

theorem Stmt.names_subset : ∀ (stmt : Stmt) (s : Scope), ∀ p ∈ stmt.occurrences s,
    p.scope.names ⊆ (stmt.after s).names
  | .block body, s => body.names_subset s
  | .ifThen _ condition yes, s => by
    rw [Stmt.occurrences, Stmt.after]
    refine List.forall_mem_append.mpr ⟨fun p hp => ?_, yes.names_subset _⟩
    rw [yes.names_after, condition.names_after, Expr.names_occurrence hp]
    exact List.subset_append_right ..
  | .ifElse _ condition yes no, s => by
    rw [Stmt.occurrences, Stmt.after, no.names_after]
    simp only [List.forall_mem_append]
    refine ⟨⟨fun p hp => ?_, fun p hp => ?_⟩, fun p hp => ?_⟩
    · rw [yes.names_after, condition.names_after, Expr.names_occurrence hp]
      exact List.subset_append_of_subset_right _ (List.subset_append_right ..)
    · exact List.subset_append_of_subset_right _ (yes.names_subset _ p hp)
    · rw [← no.names_after]
      exact no.names_subset _ p hp
  | .ret _ value, s => fun p hp => by
    rw [Stmt.after, value.names_after, Expr.names_occurrence hp]
    exact List.Subset.refl _
  | .directive _ _ _, _ => List.forall_mem_nil _

end

section Faults

variable {sig : Signature}

/-- Names that are not repeated are pairwise different, also from those before them. -/
theorem nodup_of_not_repeated {args : List Token} {names : List String}
    (h : ∀ f, ¬ NamesHaveFault names args f) (hnames : names.Nodup) :
    ((args.map (·.text)).reverse ++ names).Nodup := by
  induction args generalizing names with
  | nil => exact hnames
  | cons arg rest ih =>
      have hnew : arg.text ∉ names := fun hmem => h _ (repeated_cons_iff.mpr (.inl ⟨hmem, rfl⟩))
      rw [List.map_cons, List.reverse_cons, List.append_assoc]
      exact ih (fun f hf => h f (repeated_cons_iff.mpr (.inr hf))) (hnames.cons hnew)

/-- Behind a piece of text names are bound at most once, and no directive in it has more names than
there are parameters. -/
structure BindsOnce (sig : Signature) (directives : List (List Token)) (s : Scope) : Prop where
  distinct : (s.names.map Prod.fst).Nodup
  fit : ∀ args ∈ directives, args.length ≤ sig.args.length

theorem BindsOnce.append {directives more : List (List Token)} {s s' : Scope}
    (h : BindsOnce sig directives s) (h' : BindsOnce sig more s') :
    BindsOnce sig (directives ++ more) s' :=
  ⟨h'.distinct, List.forall_mem_append.mpr ⟨h.fit, h'.fit⟩⟩

theorem map_fst_boundBy (args : List Token) :
    (boundBy args).map Prod.fst = (args.map (·.text)).reverse := by
  have htexts := congrArg (List.map Token.text) (List.zipIdx_map_fst 0 args)
  rw [List.map_map] at htexts
  rw [boundBy, List.map_reverse, List.map_map]
  exact congrArg List.reverse htexts

mutual

/-- Text without faults binds names once. -/
theorem Block.bindsOnce : ∀ (block : Block) (s : Scope), (∀ f, ¬ block.HasFault sig s f) →
    (s.names.map Prod.fst).Nodup → BindsOnce sig block.directives (block.after s)
  | .mk _ items _, s, hnone, hs => itemsBindOnce items s (fun f hf => hnone f (.mk hf)) hs

theorem itemsBindOnce : ∀ (items : List Stmt) (s : Scope),
    (∀ f, ¬ ItemsHaveFault sig s items f) → (s.names.map Prod.fst).Nodup →
      BindsOnce sig (itemsDirectives items) (itemsAfter s items)
  | [], _, _, hs => ⟨hs, List.forall_mem_nil _⟩
  | item :: rest, s, hnone, hs => by
    have hitem := item.bindsOnce s (fun f hf => hnone f (.here hf)) hs
    rw [itemsDirectives, itemsAfter]
    split
    · rw [List.append_nil]
      exact hitem
    · next hopen =>
        have hlater := fun f hf => hnone f (.later (Bool.eq_false_iff.mpr hopen) hf)
        exact hitem.append (itemsBindOnce rest _ hlater hitem.distinct)

theorem Stmt.bindsOnce : ∀ (stmt : Stmt) (s : Scope), (∀ f, ¬ stmt.HasFault sig s f) →
    (s.names.map Prod.fst).Nodup → BindsOnce sig stmt.directives (stmt.after s)
  | .block body, s, hnone, hs => body.bindsOnce s (fun f hf => hnone f (.block hf)) hs
  | .ifThen _ condition yes, s, hnone, hs => by
    rw [← condition.names_after s] at hs
    exact yes.bindsOnce _ (fun f hf => hnone f (.thenBranch hf)) hs
  | .ifElse _ condition yes no, s, hnone, hs => by
    rw [← condition.names_after s] at hs
    have hyes := yes.bindsOnce _ (fun f hf => hnone f (.yesBranch hf)) hs
    exact hyes.append (no.bindsOnce _ (fun f hf => hnone f (.noBranch hf)) hyes.distinct)
  | .ret _ value, s, _, hs => by
    rw [← value.names_after s] at hs
    exact ⟨hs, List.forall_mem_nil _⟩
  | .directive name bang args, s, hnone, hs => by
    have hname : name.text = "args" := by
      by_contra hname
      exact hnone _ (.unknownDirective hname)
    have hlength : args[sig.args.length]? = none := by
      refine Option.eq_none_iff_forall_ne_some.mpr fun extra hextra => ?_
      exact hnone _ (.tooManyNames hname hextra)
    refine ⟨?_, List.forall_mem_singleton.mpr (List.getElem?_eq_none_iff.mp hlength)⟩
    rw [Stmt.after, s.names_bind, List.map_append, map_fst_boundBy]
    refine nodup_of_not_repeated (fun f hf => hnone f ?_) hs
    exact hasFault_directive_iff.mpr (.inr ⟨hname, .inr hf⟩)

end

end Faults

theorem Emitter.not_hasFault_of_emit {program : Program} {width : Nat} {e : Emitter}
    {name triple text : String} (hemit : (new program width name triple).emit = (.ok text, e))
    (f : LoweringFault) : ¬ program.HasFault f := by
  have hdecides := decides_emit program width name triple
  rw [hemit] at hdecides
  exact hdecides f

section Lists

variable {directives : List (List Token)} {name : String} {position : Nat}

theorem map_fst_boundByAll (directives : List (List Token)) :
    (boundByAll directives).map Prod.fst = (directives.flatten.map (·.text)).reverse := by
  induction directives with
  | nil => rfl
  | cons args rest ih =>
      rw [← List.singleton_append, boundByAll_append, List.map_append, ih, List.flatten_append,
        List.map_append, List.reverse_append, boundByAll]
      simp [map_fst_boundBy]

/-- The lists that name a parameter. -/
def naming (directives : List (List Token)) : List (List Token) :=
  directives.filter fun args => !args.isEmpty

theorem flatten_naming (directives : List (List Token)) :
    (naming directives).flatten = directives.flatten :=
  List.flatten_filter_not_isEmpty

theorem Denotes.exists_naming (h : Denotes directives name position) :
    ∃ args ∈ naming directives, (args.map (·.text))[position]? = some name := by
  obtain ⟨args, hargs, hname⟩ := h
  refine ⟨args, List.mem_filter.mpr ⟨hargs, ?_⟩, hname⟩
  cases args with
  | nil => cases hname
  | cons arg rest => rfl

/-- The first names of two lists stand for one parameter. -/
theorem denotes_once_iff (hnames : (directives.flatten.map (·.text)).Nodup) :
    (∀ name name' position, Denotes directives name position →
        Denotes directives name' position → name = name') ↔
      (naming directives).length ≤ 1 := by
  constructor
  · intro honce
    rcases hnaming : naming directives with _ | ⟨args, _ | ⟨args', rest⟩⟩
    · exact Nat.zero_le 1
    · exact Nat.le_refl 1
    · have hmem : ∀ list ∈ args :: args' :: rest, list ∈ directives ∧ list ≠ [] := by
        rw [← hnaming]
        intro list hlist
        simpa [naming] using hlist
      obtain ⟨hargs, hne⟩ := hmem args List.mem_cons_self
      obtain ⟨hargs', hne'⟩ := hmem args' (List.mem_cons_of_mem _ List.mem_cons_self)
      obtain ⟨a, as, rfl⟩ := List.exists_cons_of_ne_nil hne
      obtain ⟨b, bs, rfl⟩ := List.exists_cons_of_ne_nil hne'
      have hsame := honce a.text b.text 0 ⟨_, hargs, rfl⟩ ⟨_, hargs', rfl⟩
      rw [← flatten_naming, hnaming] at hnames
      simp [hsame] at hnames
  · intro hone name name' position h h'
    obtain ⟨args, hargs, hname⟩ := h.exists_naming
    obtain ⟨args', hargs', hname'⟩ := h'.exists_naming
    rcases hnaming : naming directives with _ | ⟨only, _ | ⟨other, rest⟩⟩
    · rw [hnaming] at hargs
      cases hargs
    · rw [hnaming, List.mem_singleton] at hargs hargs'
      subst hargs hargs'
      exact Option.some.inj (hname.symm.trans hname')
    · rw [hnaming] at hone
      simp at hone

theorem length_flatten_le {n : Nat} (hone : (naming directives).length ≤ 1)
    (hfit : ∀ args ∈ directives, args.length ≤ n) : directives.flatten.length ≤ n := by
  rw [← flatten_naming]
  rcases hnaming : naming directives with _ | ⟨only, _ | ⟨other, rest⟩⟩
  · exact Nat.zero_le n
  · have honly : only ∈ naming directives := by
      rw [hnaming]
      exact List.mem_cons_self
    simpa using hfit only (List.mem_of_mem_filter honly)
  · rw [hnaming] at hone
    simp at hone

end Lists

/-- The name stands for the parameter at the position. -/
def Draft.Binds (d : Draft) (name : String) (position : Nat) : Prop :=
  ∃ type, d.bindings.lookup name = some ⟨type, .parameter position⟩

/-- No parameter has two names. -/
def Draft.BindsApart (d : Draft) : Prop :=
  ∀ name name' position, d.Binds name position → d.Binds name' position → name = name'

theorem Matches.binds_iff {ret : Ty} {types : List Ty} {s : Scope} {b : Build}
    (h : Matches ret types s b) (name : String) (position : Nat) :
    b.draft.Binds name position ↔ s.names.lookup name = some position := by
  have hnames := h.names name
  constructor
  · rintro ⟨type, hlookup⟩
    rw [hlookup] at hnames
    obtain ⟨other, hother, hsame⟩ := Option.map_eq_some_iff.mp hnames.symm
    cases hsame
    exact hother
  · intro hlookup
    rw [hlookup] at hnames
    obtain ⟨⟨type, operand⟩, hvalue, hsame⟩ := Option.map_eq_some_iff.mp hnames
    cases hsame
    exact ⟨type, hvalue⟩

theorem Draft.bindings_finish (d : Draft) : d.finish.bindings = d.bindings := by
  rw [finish]
  split <;> rfl

theorem FunctionDecl.names_after (d : FunctionDecl) (literals : List String) :
    (d.body.after { literals }).names = boundByAll d.directives := by
  rw [d.body.names_after, List.append_nil, directives]

namespace Realizes

variable {width : Nat} {literals : List String} {d : FunctionDecl} {f : Ir.Function}

/-- A live use of a name gives the argument for the parameter that it stands for. -/
theorem exists_denotes (h : Realizes width literals d f) {s : Scope} {token : Token}
    (hp : ⟨s, .name token⟩ ∈ d.occurrences literals) :
    ∃ position, Denotes d.directives token.text position ∧
      ∀ args, (Expr.name token).eval width args s = args[position]? := by
  obtain ⟨site, hsite⟩ := h.exists_site hp
  obtain ⟨bindings, count, texts, hnames, -, hcompiles⟩ := hsite.compiles
  obtain ⟨v, hv⟩ : ∃ v, bindings.lookup token.text = some v := by
    generalize site.code = code, site.value = value at hcompiles
    cases hcompiles with
    | name hlookup => exact ⟨_, hlookup⟩
  have hname := hnames token.text
  rw [hv] at hname
  obtain ⟨position, hposition, -⟩ := Option.map_eq_some_iff.mp hname.symm
  have hbound := d.body.names_subset _ _ hp (mem_of_lookup hposition)
  rw [d.names_after] at hbound
  refine ⟨position, denotes_iff_mem.mpr hbound, fun args => ?_⟩
  rw [Expr.eval, hposition]
  rfl

end Realizes

namespace Emitter

variable {program : Program} {width : Nat} {e : Emitter} {name triple text : String}

/-- The names in all live directives of a function are different, and each of them stands for the
parameter at its own position, also where it is used. So each parameter has one name, and there are
no more names than parameters, exactly where no more than one of the directives names anything. -/
theorem parameterNames_of_emit (hemit : (new program width name triple).emit = (.ok text, e))
    {i : Nat} {d : FunctionDecl} {f : Ir.Function} (hd : program.declarations[i]? = some d)
    (hf : e.module.functions[i]? = some f) :
    (d.directives.flatten.map (·.text)).Nodup ∧
      (∀ args ∈ d.directives, args.length ≤ f.parameters.length) ∧
      (∀ s token, ⟨s, .name token⟩ ∈ d.occurrences (literalsOf (program.declarations.take i)) →
        ∃ position, Denotes d.directives token.text position ∧
          ∀ args, (Expr.name token).eval width args s = args[position]?) ∧
      ∃ strings events b, d.lower width ⟨Draft.start f.ret
          (parametersOf (f.parameters.map (·.type))), strings, events⟩ = (.ok (), b) ∧
        f.parameters = b.draft.parameters ∧ f.blocks = b.draft.blocks ∧
        (∀ name position, b.draft.Binds name position ↔ Denotes d.directives name position) ∧
        (b.draft.BindsApart ↔ (naming d.directives).length ≤ 1) ∧
        (b.draft.BindsApart → d.directives.flatten.length ≤ f.parameters.length) := by
  have hrealizes := realizes_of_emit hemit hd hf
  have hnone := not_hasFault_of_emit hemit
  have honce := d.body.bindsOnce {} (fun f hf => hnone f (.body (List.mem_of_getElem? hd) hf))
    List.nodup_nil
  have hdistinct : ((boundByAll d.directives).map Prod.fst).Nodup :=
    d.names_after [] ▸ honce.distinct
  have hnames : (d.directives.flatten.map (·.text)).Nodup := by
    rwa [map_fst_boundByAll, List.nodup_reverse] at hdistinct
  have hfit : ∀ args ∈ d.directives, args.length ≤ f.parameters.length := by
    rw [hrealizes.length_parameters]
    exact honce.fit
  obtain ⟨strings, events, b, hstrings, hlower, hparameters, hblocks⟩ := hrealizes.lowered
  obtain ⟨_, b₁, hlowers, rfl⟩ := FunctionDecl.lowers_of_lower hlower
  obtain ⟨hmatches, -⟩ := hlowers.matches (Draft.isOpen_start _ _) (.start hstrings)
  have hbinds : ∀ name position, b₁.draft.finish.Binds name position ↔
      Denotes d.directives name position := by
    intro name position
    rw [Draft.Binds, Draft.bindings_finish, denotes_iff_mem, ← lookup_iff_mem hdistinct,
      ← d.names_after, ← hmatches.binds_iff]
    rfl
  have hiff : b₁.draft.finish.BindsApart ↔ (naming d.directives).length ≤ 1 := by
    simp only [Draft.BindsApart, hbinds]
    exact denotes_once_iff hnames
  exact ⟨hnames, hfit, fun s token => hrealizes.exists_denotes, strings, events, _, hlower,
    hparameters, hblocks, hbinds, hiff, fun h => length_flatten_le (hiff.mp h) hfit⟩

/-- The names are bound in a branch and used behind it. -/
def branchSource : String :=
  "f(int, bool) int \x7b if 1 \x7b args! a, b \x7d : a - b \x7d"

theorem parameterNames_of_emit_branch : ∃ program text e d f,
    Program.parse branchSource = .ok program ∧
    (new program 64 "main" unknownTriple).emit = (.ok text, e) ∧
    program.declarations[0]? = some d ∧ e.module.functions[0]? = some f ∧
    (naming d.directives).length = 1 ∧
    (∀ s token, ⟨s, .name token⟩ ∈ d.occurrences [] →
      ∃ position, Denotes d.directives token.text position ∧
        ∀ args, (Expr.name token).eval 64 args s = args[position]?) ∧
    ∃ strings events b, d.lower 64 ⟨Draft.start f.ret
        (parametersOf (f.parameters.map (·.type))), strings, events⟩ = (.ok (), b) ∧
      b.draft.BindsApart ∧ d.directives.flatten.length ≤ f.parameters.length := by
  obtain ⟨program, text, e, d, f, hparse, hemit, hd, hf, hone⟩ :=
    exists_function_of_any 64 branchSource (fun d _ => (naming d.directives).length = 1)
      (by decide +kernel)
  have hone := of_decide_eq_true hone
  obtain ⟨-, -, huses, strings, events, b, hlower, -, -, -, hiff, hlength⟩ :=
    parameterNames_of_emit hemit hd hf
  have hapart := hiff.mpr (Nat.le_of_eq hone)
  exact ⟨program, text, e, d, f, hparse, hemit, hd, hf, hone, huses, strings, events, b, hlower,
    hapart, hlength hapart⟩

/-- Each of two directives names the only parameter. -/
def twiceSource : String :=
  "f(int) int \x7b args! a args! b : a - b \x7d"

/-- The only instruction subtracts the first parameter from itself. -/
def subtractsFirst : Ir.Function → Bool
  | ⟨_, _, _, [⟨_, [⟨_, .sub ⟨_, .parameter 0⟩ ⟨_, .parameter 0⟩⟩], _⟩]⟩ => true
  | _ => false

/-- Two names stand for the only parameter. -/
theorem two_names_of_one : ∃ program text e d f, Program.parse twiceSource = .ok program ∧
    (new program 64 "main" unknownTriple).emit = (.ok text, e) ∧
    program.declarations[0]? = some d ∧ e.module.functions[0]? = some f ∧
    f.parameters.length = 1 ∧ Denotes d.directives "a" 0 ∧ Denotes d.directives "b" 0 ∧
    subtractsFirst f = true := by
  obtain ⟨program, text, e, d, f, hparse, hemit, hd, hf, h⟩ :=
    exists_function_of_any 64 twiceSource (fun d f =>
      d.directives.map (·.map (·.text)) = [["a"], ["b"]] && f.parameters.length = 1 &&
        subtractsFirst f) (by decide +kernel)
  simp only [Bool.and_eq_true, decide_eq_true_eq] at h
  obtain ⟨⟨hdirectives, hlength⟩, hsubtracts⟩ := h
  have hdenotes : ∀ name, [name] ∈ [["a"], ["b"]] → Denotes d.directives name 0 := by
    intro name hname
    rw [← hdirectives] at hname
    obtain ⟨args, hargs, hsame⟩ := List.mem_map.mp hname
    exact ⟨args, hargs, by rw [hsame]; rfl⟩
  exact ⟨program, text, e, d, f, hparse, hemit, hd, hf, hlength, hdenotes "a" (by decide),
    hdenotes "b" (by decide), hsubtracts⟩

end Emitter

end KestrelCompiler
