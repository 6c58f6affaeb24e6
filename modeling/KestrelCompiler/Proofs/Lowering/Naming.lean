import KestrelCompiler.Proofs.Grammar.Identifier
import KestrelCompiler.Proofs.Ir.Naming
import KestrelCompiler.Proofs.Lowering.Growth

/-!
Names and numbers of one function. Parameters that a directive names, and all labels, are taken from
the scope of the function; the other parameters and the results of instructions are numbered, and a
name from the scope is never a number.
-/

namespace KestrelCompiler

open Ir (Ty Value Instruction StringConstant)

/-- Code whose results are numbered on from `count`. -/
def CodeNumbered (count : Nat) (code : List Instruction) : Prop :=
  code.map (·.number) = List.range' (count + 1) code.length

section Code

variable {count : Nat} {code more : List Instruction} {v v' : Value}

theorem CodeNumbered.append (h : CodeNumbered count code)
    (hmore : CodeNumbered (count + code.length) more) : CodeNumbered count (code ++ more) := by
  rw [CodeNumbered, List.map_append, h, hmore, List.length_append, ← List.range'_append_1]
  congr 2
  omega

theorem codeNumbered_singleton (count : Nat) (operation : Ir.Operation) :
    CodeNumbered count [⟨count + 1, operation⟩] :=
  rfl

theorem Coerces.numbered {target : Ty} (h : Coerces count v target code v') :
    CodeNumbered count code := by
  cases h with
  | same _ => rfl
  | truncate _ _ _ | extendZero _ _ _ | extendSign _ _ _ _ | cast _ _ => rfl

theorem Tests.numbered {c : Value} (h : Tests count v code c) : CodeNumbered count code := by
  cases h with
  | bit _ => rfl
  | nonzero _ => rfl

theorem Compiles.numbered {width strings : Nat} {bindings : List (String × Value)} {e : Expr}
    {texts : List StringConstant} (h : Compiles width bindings count strings e code texts v) :
    CodeNumbered count code := by
  induction h with
  | number _ | string | name _ => rfl
  | @binary count _ _ _ _ _ _ _ codeL codeR coerceL coerceR _ _ _ _ _ _ _ _ _ _ hl' hr' ihl ihr =>
      have hoperands : CodeNumbered count (codeL ++ codeR ++ coerceL ++ coerceR) :=
        ((ihl.append ihr).append hl'.numbered).append hr'.numbered
      exact hoperands.append (codeNumbered_singleton _ _)

end Code

theorem isPlain_of_isIdentifier {name : String} (h : IsIdentifier name) : Ir.IsPlain name := by
  obtain ⟨hne, hchars⟩ := h
  obtain ⟨c, rest, hname⟩ := List.exists_cons_of_ne_nil hne
  refine ⟨c, rest, hname, ?_⟩
  rintro rfl
  have hpoint : isIdentChar '.' = false := by decide
  have hchar := hchars '.' (hname ▸ List.mem_cons_self)
  rw [hpoint] at hchar
  cases hchar

theorem isPlain_labelAfter {label : String} (h : Ir.IsPlain label) (suffix : String) :
    Ir.IsPlain (labelAfter label suffix) := by
  rw [labelAfter]
  split
  · obtain ⟨c, rest, hname, hc⟩ := h
    have hcut : Ir.IsPlain (String.ofList (label.toList.take 25)) := by
      refine ⟨c, rest.take 24, ?_, hc⟩
      rw [String.toList_ofList, hname, List.take_succ_cons]
    exact (hcut.append _).append _
  · exact h.append _

/-- An edit of one block that adds to what is listed of it. -/
theorem flatMap_modify_perm {α β : Type} {l : List α} {i : Nat} {f : α → α} {g : α → List β}
    {more : List β} (hi : i < l.length) (hf : ∀ a, g (f a) = g a ++ more) :
    ((l.modify i f).flatMap g).Perm (l.flatMap g ++ more) := by
  induction l generalizing i with
  | nil => cases hi
  | cons a rest ih =>
      cases i with
      | zero =>
          rw [List.modify_zero_cons, List.flatMap_cons, List.flatMap_cons, hf, List.append_assoc,
            List.append_assoc]
          exact List.perm_append_comm.append_left _
      | succ i =>
          rw [List.modify_succ_cons, List.flatMap_cons, List.flatMap_cons, List.append_assoc]
          exact (ih (Nat.lt_of_succ_lt_succ hi)).append_left _

namespace Draft

/-- The numbers of the results. -/
def numbers (d : Draft) : List Nat :=
  d.blocks.flatMap fun b => b.instructions.map (·.number)

/-- Names of parameters and blocks. -/
def names (d : Draft) : List String :=
  d.parameters.map (·.name) ++ d.blocks.map (·.label)

theorem numbers_addBlock (d : Draft) (label : String) : (d.addBlock label).2.numbers = d.numbers := by
  simp [numbers, addBlock]

theorem names_addBlock (d : Draft) (label : String) :
    (d.addBlock label).2.names = d.names ++ [(d.scope.register label).1] := by
  simp [names, addBlock]

theorem length_parameters_bind (d : Draft) (name : String) (position : Nat) (type : Ty) :
    (d.bind name position type).parameters.length = d.parameters.length :=
  List.length_modify ..

theorem names_bind (d : Draft) (name : String) (position : Nat) (type : Ty) :
    (d.bind name position type).names =
      (d.parameters.map (·.name)).set position (d.scope.register name).1 ++
        d.blocks.map (·.label) :=
  congrArg (· ++ d.blocks.map (·.label)) (map_modify_eq_set fun _ => rfl)

end Draft

/-- What is known of the names and numbers in a draft. -/
structure DraftNamed (d : Draft) : Prop where
  plain : ∀ name ∈ d.scope.used, Ir.IsPlain name
  parameters : ∀ p ∈ d.parameters, p.name ∈ d.scope.used ∨
    ∃ n ≤ d.parameters.length, p.name = Ir.resultName n
  labels : ∀ b ∈ d.blocks, b.label ∈ d.scope.used
  names : d.names.Nodup
  numbers : d.numbers.Nodup
  range : ∀ n ∈ d.numbers, d.parameters.length < n ∧ n ≤ d.count
  count : d.parameters.length ≤ d.count

namespace DraftNamed

variable {d : Draft}

/-- An edit of the current block that keeps its label and may give out the next numbers. -/
theorem modify {d' : Draft} {k : Nat} {f : Ir.Block → Ir.Block} (h : DraftNamed d)
    (hinside : d.current < d.blocks.length) (hparameters : d'.parameters = d.parameters)
    (hscope : d'.scope = d.scope) (hblocks : d'.blocks = d.blocks.modify d.current f)
    (hcount : d.count + k ≤ d'.count) (hlabel : ∀ b, (f b).label = b.label)
    (hnumbers : ∀ b, (f b).instructions.map (·.number) =
      b.instructions.map (·.number) ++ List.range' (d.count + 1) k) : DraftNamed d' := by
  have hlabels : d'.blocks.map (·.label) = d.blocks.map (·.label) := by
    rw [hblocks]
    exact map_modify_eq hlabel
  have hperm : d'.numbers.Perm (d.numbers ++ List.range' (d.count + 1) k) := by
    rw [Draft.numbers, hblocks]
    exact flatMap_modify_perm hinside hnumbers
  have hnew : ∀ n ∈ List.range' (d.count + 1) k, d.count < n ∧ n ≤ d'.count := by
    intro n hn
    have := List.mem_range'_1.mp hn
    omega
  have hcount' := h.count
  exact {
    plain := hscope ▸ h.plain
    parameters := by
      rw [hparameters, hscope]
      exact h.parameters
    labels := by
      intro b hb
      have hmem : b.label ∈ d'.blocks.map (·.label) := List.mem_map_of_mem hb
      rw [hlabels] at hmem
      obtain ⟨b', hb', hsame⟩ := List.mem_map.mp hmem
      rw [← hsame, hscope]
      exact h.labels b' hb'
    names := by
      rw [Draft.names, hparameters, hlabels]
      exact h.names
    numbers := by
      refine hperm.nodup_iff.mpr (h.numbers.append (List.nodup_range' ..) ?_)
      intro n hn hn'
      have hold := (h.range n hn).2
      have := (hnew n hn').1
      omega
    range := by
      intro n hn
      rw [hparameters]
      rcases List.mem_append.mp (hperm.mem_iff.mp hn) with hn | hn
      · have := h.range n hn
        omega
      · have := hnew n hn
        omega
    count := by
      rw [hparameters]
      omega }

theorem append (h : DraftNamed d) (hinside : d.current < d.blocks.length)
    {code : List Instruction} (hcode : CodeNumbered d.count code) : DraftNamed (d.append code) :=
  h.modify hinside rfl rfl rfl (Nat.le_refl _) (fun _ => rfl) fun b => by
    rw [List.map_append, hcode]

theorem close (h : DraftNamed d) (hinside : d.current < d.blocks.length) (exit : Ir.Exit) :
    DraftNamed (d.close exit) :=
  h.modify (k := 0) hinside rfl rfl rfl (Nat.le_succ _) (fun _ => rfl) fun _ =>
    (List.append_nil _).symm

theorem enter (h : DraftNamed d) (position : Nat) : DraftNamed (d.enter position) :=
  ⟨h.plain, h.parameters, h.labels, h.names, h.numbers, h.range, h.count⟩

theorem proceed (h : DraftNamed d) (hinside : d.current < d.blocks.length) (next : Nat) :
    DraftNamed (d.proceed next) := by
  rw [Draft.proceed]
  split
  · exact h
  · exact h.close hinside _

theorem leave (h : DraftNamed d) (hinside : d.current < d.blocks.length) (next position : Nat) :
    DraftNamed (d.leave next position) :=
  (h.proceed hinside next).enter position

/-- A name that the scope has not given out yet is no name of a parameter or a block. -/
theorem not_mem_names (h : DraftNamed d) {name : String} (hplain : Ir.IsPlain name)
    (hnew : name ∉ d.scope.used) : name ∉ d.names := by
  intro hmem
  rcases List.mem_append.mp hmem with hmem | hmem
  · obtain ⟨p, hp, rfl⟩ := List.mem_map.mp hmem
    rcases h.parameters p hp with hused | ⟨n, -, hname⟩
    · exact hnew hused
    · exact Ir.not_isPlain_resultName n (hname ▸ hplain)
  · obtain ⟨b, hb, rfl⟩ := List.mem_map.mp hmem
    exact hnew (h.labels b hb)

/-- The scope after it has given out a name for `name`. -/
theorem plain_register (h : DraftNamed d) {name : String} (hplain : Ir.IsPlain name) :
    ∀ used ∈ (d.scope.register name).2.used, Ir.IsPlain used := by
  intro used hused
  rw [Ir.NameScope.used_register] at hused
  rcases List.mem_cons.mp hused with rfl | hused
  · exact Ir.NameScope.isPlain_register _ hplain
  · exact h.plain used hused

theorem mem_used_register {name other : String} (h : other ∈ d.scope.used) :
    other ∈ (d.scope.register name).2.used := by
  rw [Ir.NameScope.used_register]
  exact List.mem_cons_of_mem _ h

theorem register_mem_used {name : String} :
    (d.scope.register name).1 ∈ (d.scope.register name).2.used := by
  rw [Ir.NameScope.used_register]
  exact List.mem_cons_self

theorem addBlock (h : DraftNamed d) {label : String} (hplain : Ir.IsPlain label) :
    DraftNamed (d.addBlock label).2 where
  plain := h.plain_register hplain
  parameters p hp := (h.parameters p hp).imp_left mem_used_register
  labels b hb := by
    rcases List.mem_append.mp hb with hb | hb
    · exact mem_used_register (h.labels b hb)
    · rw [List.mem_singleton.mp hb]
      exact register_mem_used
  names := by
    rw [Draft.names_addBlock, List.nodup_append_comm]
    exact h.names.cons (h.not_mem_names (Ir.NameScope.isPlain_register _ hplain)
      (Ir.NameScope.register_not_mem _ _))
  numbers := by
    rw [Draft.numbers_addBlock]
    exact h.numbers
  range := by
    rw [Draft.numbers_addBlock]
    exact h.range
  count := h.count

theorem addBlockAfter (h : DraftNamed d) (hinside : d.current < d.blocks.length)
    (suffix : String) : DraftNamed (d.addBlockAfter suffix) := by
  refine h.addBlock (isPlain_labelAfter ?_ suffix)
  rw [Draft.currentBlock?, List.getElem?_eq_getElem hinside]
  exact h.plain _ (h.labels _ (List.getElem_mem hinside))

theorem forkThen (h : DraftNamed d) (hopen : d.IsOpen) (c : Value) :
    DraftNamed (d.forkThen c) := by
  have hif := Draft.isOpen_addBlockAfter hopen ".if"
  have hendif := Draft.isOpen_addBlockAfter hif ".endif"
  exact (((h.addBlockAfter hopen.inside ".if").addBlockAfter hif.inside ".endif").close
    hendif.inside _).enter _

theorem forkElse (h : DraftNamed d) (hopen : d.IsOpen) (c : Value) :
    DraftNamed (d.forkElse c) := by
  have hif := Draft.isOpen_addBlockAfter hopen ".if"
  have helse := Draft.isOpen_addBlockAfter hif ".else"
  have hendif := Draft.isOpen_addBlockAfter helse ".endif"
  exact ((((h.addBlockAfter hopen.inside ".if").addBlockAfter hif.inside ".else").addBlockAfter
    helse.inside ".endif").close hendif.inside _).enter _

/-- A parameter gives up its name for one that is new. -/
theorem bind (h : DraftNamed d) {name : String} (hplain : Ir.IsPlain name) (position : Nat)
    (type : Ty) : DraftNamed (d.bind name position type) where
  plain := h.plain_register hplain
  parameters := by
    rw [Draft.length_parameters_bind]
    refine forall_mem_modify (fun p hp => (h.parameters p hp).imp_left mem_used_register)
      fun p _ => .inl register_mem_used
  labels b hb := mem_used_register (h.labels b hb)
  names := by
    have hnew := h.not_mem_names (d.scope.isPlain_register hplain) (d.scope.register_not_mem name)
    have hnames : (d.parameters.map (·.name) ++ d.blocks.map (·.label)).Nodup := h.names
    obtain ⟨hparameters, hlabels, hdisjoint⟩ := List.nodup_append'.mp hnames
    obtain ⟨hnew, hnew'⟩ := not_or.mp (mt List.mem_append.mpr hnew)
    rw [Draft.names_bind]
    refine List.nodup_append'.mpr ⟨hparameters.set hnew, hlabels, fun other hother hlabel => ?_⟩
    rcases List.mem_or_eq_of_mem_set hother with hother | rfl
    · exact hdisjoint hother hlabel
    · exact hnew' hlabel
  numbers := h.numbers
  range := by
    rw [Draft.length_parameters_bind]
    exact h.range
  count := by
    rw [Draft.length_parameters_bind]
    exact h.count

theorem bindAll (h : DraftNamed d) {names : List (Token × Ir.Parameter × Nat)}
    (hnames : ∀ entry ∈ names, IsIdentifier entry.1.text) : DraftNamed (d.bindAll names) := by
  induction names generalizing d with
  | nil => exact h
  | cons entry rest ih =>
      have hplain := isPlain_of_isIdentifier (hnames entry List.mem_cons_self)
      exact ih (h.bind hplain _ _) fun e he => hnames e (List.mem_cons_of_mem entry he)

/-- No name is given twice, those of results included. -/
theorem nodup (h : DraftNamed d) : (d.names ++ d.numbers.map Ir.resultName).Nodup := by
  refine List.nodup_append'.mpr ⟨h.names, h.numbers.map fun _ _ => Ir.resultName_injective, ?_⟩
  intro name hname hresult
  obtain ⟨n, hn, rfl⟩ := List.mem_map.mp hresult
  rcases List.mem_append.mp hname with hparameter | hlabel
  · obtain ⟨p, hp, hsame⟩ := List.mem_map.mp hparameter
    rcases h.parameters p hp with hused | ⟨m, hm, hnumber⟩
    · exact Ir.not_isPlain_resultName n (hsame ▸ h.plain _ hused)
    · have := (h.range n hn).1
      have := Ir.resultName_injective (hsame.symm.trans hnumber)
      omega
  · obtain ⟨b, hb, hsame⟩ := List.mem_map.mp hlabel
    exact Ir.not_isPlain_resultName n (hsame ▸ h.plain _ (h.labels b hb))

end DraftNamed

variable {width : Nat}

mutual

theorem LowersBlock.named {block : Block} {b b' : Build} :
    LowersBlock width block b b' → block.Named → b.draft.current < b.draft.blocks.length →
      DraftNamed b.draft → DraftNamed b'.draft
  | .mk hitems, hnamed, hinside, h => hitems.named hnamed hinside h

theorem LowersItems.named {items : List Stmt} {b b' : Build} :
    LowersItems width items b b' → ItemsNamed items → b.draft.current < b.draft.blocks.length →
      DraftNamed b.draft → DraftNamed b'.draft
  | .nil, _, _, h => h
  | .unreachable _ _, _, _, h => h
  | .cons hopen hitem hrest, hnamed, hinside, h =>
    hrest.named hnamed.2 (hitem.extends ⟨hinside, hopen⟩).inside
      (hitem.named hnamed.1 ⟨hinside, hopen⟩ h)

theorem Lowers.named {s : Stmt} {b b' : Build} :
    Lowers width s b b' → s.Named → b.draft.IsOpen → DraftNamed b.draft → DraftNamed b'.draft
  | .block hbody, hnamed, hopen, h => hbody.named hnamed hopen.inside h
  | .ifThen c code test he htest hyes, hnamed, hopen, h => by
    have hcodeOpen := Draft.isOpen_append hopen (code ++ test)
    have hcode := h.append hopen.inside (he.numbered.append htest.numbered)
    have hinside := (Draft.extends_forkThen hcodeOpen c).2.inside
    have hyesNamed := hyes.named hnamed hinside (hcode.forkThen hcodeOpen c)
    exact hyesNamed.leave (hyes.extends hinside).inside _ _
  | .ifElse c code test he htest hyes hno, hnamed, hopen, h => by
    have hcodeOpen := Draft.isOpen_append hopen (code ++ test)
    have hcode := h.append hopen.inside (he.numbered.append htest.numbered)
    have hinside := (Draft.extends_forkElse hcodeOpen c).2.inside
    have hextends := hyes.extends hinside
    have hyesNamed := hyes.named hnamed.1 hinside (hcode.forkElse hcodeOpen c)
    have hinside' := (Draft.extends_leave_yes hcodeOpen hextends).2.inside
    rw [Draft.length_blocks_append] at hinside'
    have hnoNamed := hno.named hnamed.2 hinside' (hyesNamed.leave hextends.inside _ _)
    exact hnoNamed.leave (hno.extends hinside').inside _ _
  | .ret code coerce _ hvalue hcoerce, _, hopen, h => by
    have hcode := h.append hopen.inside (hvalue.numbered.append hcoerce.numbered)
    exact hcode.close (Draft.isOpen_append hopen (code ++ coerce)).inside _
  | .directive _, hnamed, _, h =>
    h.bindAll fun _ hentry => hnamed _ (List.of_mem_zip hentry).1

end

end KestrelCompiler
