import Mathlib.Data.Nat.Digits.Defs
import KestrelCompiler.Proofs.Numerals.Respelling
import KestrelCompiler.Proofs.Numerals.Stopping

/-!
Number literals mean their digits. A live literal is a constant of the type `int` with the value of
its decimal digits, of whatever scripts, and underscores do not matter. A literal with other numeric
characters or with too many digits stops the emission, unless a fault that is met before does.
-/

namespace KestrelCompiler

open Text KestrelCompiler.Derivation

/-- A numeric character and then numeric characters and underscores. -/
def Text.IsNumeral (text : List Char) : Prop :=
  ∃ first more, text = first :: more ∧ isNumeric first = true ∧
    ∀ c ∈ more, isNumeric c = true ∨ c = '_'

/-- Numeric characters that are no decimal digits, or too many digits. -/
def Text.Malformed (text : List Char) : Prop :=
  (∃ c ∈ text, isNumeric c = true ∧ digitValue? c = none) ∨
    Decimal.maxDigits < (text.filter (· ≠ '_')).length

/-- The values of the decimal digits, each of any script, without the underscores. -/
def Text.HasDigits (text : List Char) (digits : List Nat) : Prop :=
  List.Forall₂ (fun c d => digitValue? c = some d) (text.filter (· ≠ '_')) digits

section Numeral

variable {text : List Char}

theorem Text.ofDigits_eq (base : Nat) (digits : List Nat) :
    Text.ofDigits base digits = Nat.ofDigits base digits.reverse := by
  rw [Nat.ofDigits_eq_foldr, List.foldr_reverse, Text.ofDigits]
  simp only [Nat.cast_id, Nat.add_comm]

theorem Text.IsNumeral.isNumeric_or {c : Char} (h : IsNumeral text) (hc : c ∈ text) :
    isNumeric c = true ∨ c = '_' := by
  obtain ⟨first, more, rfl, hfirst, hmore⟩ := h
  rcases List.mem_cons.mp hc with rfl | hc
  · exact .inl hfirst
  · exact hmore c hc

theorem Text.IsNumeral.malformed_iff (h : IsNumeral text) :
    Malformed text ↔ numberValue? text = none := by
  rw [numberValue?_eq_none_iff, Malformed, or_comm]
  refine or_congr_right (exists_congr fun c => and_congr_right fun hc => and_congr_left fun _ => ?_)
  constructor
  · rintro hnumeric rfl
    exact absurd hnumeric (by decide)
  · exact (h.isNumeric_or hc).resolve_right

theorem forall₂_of_mapM {α β : Type} {g : α → Option β} {as : List α} {bs : List β}
    (h : as.mapM g = some bs) : List.Forall₂ (fun a b => g a = some b) as bs := by
  induction as generalizing bs with
  | nil =>
      cases h
      exact .nil
  | cons a rest ih =>
      rw [List.mapM_cons] at h
      obtain ⟨b, hb, h⟩ := Option.bind_eq_some_iff.mp h
      obtain ⟨bs', hbs, h⟩ := Option.bind_eq_some_iff.mp h
      cases h
      exact .cons hb (ih hbs)

theorem exists_digits_of_numberValue? {n : Nat} (h : numberValue? text = some n) :
    ∃ digits, HasDigits text digits ∧ n = Nat.ofDigits 10 digits.reverse := by
  simp only [numberValue?] at h
  split at h
  · obtain ⟨digits, hdigits, rfl⟩ := Option.map_eq_some_iff.mp h
    exact ⟨digits, forall₂_of_mapM hdigits, Text.ofDigits_eq 10 digits⟩
  · cases h

theorem Shape.isNumeral_of_number {word after : List Char} (h : Shape.number word after) :
    IsNumeral word := by
  obtain ⟨⟨first, more, rfl, hfirst, hmore⟩, -⟩ := h
  refine ⟨first, more, rfl, hfirst, fun c hc => ?_⟩
  simpa [isNumberChar] using hmore c hc

theorem Program.isNumeral_of_numbers {source : String} {program : Program}
    (h : Program.parse source = .ok program) {t : Token} (ht : t ∈ program.numbers) :
    IsNumeral t.text.toList := by
  obtain ⟨word, after, hshape, htext, -⟩ := Program.reads_of_numbers h ht
  rw [htext, String.toList_ofList]
  exact Shape.isNumeral_of_number hshape

end Numeral

/-- If it is the fault of a number literal, this has no value. -/
def LoweringFault.Warranted (f : LoweringFault) : Prop :=
  ∀ text, f.error = .invalidNumber text → numberValue? text.toList = none

section Warranted

variable {sig : Signature} {f : LoweringFault}

theorem TypeExpr.HasFault.warranted {t : TypeExpr} (h : t.HasFault f) : f.Warranted := by
  induction h with
  | void _ | unknown _ => exact fun _ hf => nomatch hf
  | pointer _ _ ih | argument _ _ ih | result _ _ ih => exact ih

theorem Expr.HasFault.warranted {s : Scope} {e : Expr} (h : e.HasFault sig s f) :
    f.Warranted := by
  induction h with
  | tooLong hlong =>
      rintro _ ⟨⟩
      exact numberValue?_eq_none_iff.mpr (.inl hlong)
  | notDecimal hc hscore hdigit =>
      rintro _ ⟨⟩
      exact numberValue?_eq_none_iff.mpr (.inr ⟨_, hc, hscore, hdigit⟩)
  | unknown _ | leftAddress _ | rightAddress _ => exact fun _ hf => nomatch hf
  | left _ ih | right _ ih => exact ih

mutual

theorem Block.HasFault.warranted {b : Block} {s : Scope} {f : LoweringFault} :
    b.HasFault sig s f → f.Warranted
  | .mk hitems => hitems.warranted

theorem ItemsHaveFault.warranted {items : List Stmt} {s : Scope} {f : LoweringFault} :
    ItemsHaveFault sig s items f → f.Warranted
  | .here hitem => hitem.warranted
  | .later _ hrest => hrest.warranted

theorem Stmt.HasFault.warranted {stmt : Stmt} {s : Scope} {f : LoweringFault} :
    stmt.HasFault sig s f → f.Warranted
  | .block hbody => hbody.warranted
  | .thenCondition hcondition | .elseCondition hcondition => hcondition.warranted
  | .thenBranch hbranch | .yesBranch hbranch | .noBranch hbranch => hbranch.warranted
  | .value hvalue => hvalue.warranted
  | .noResult _ | .conversion _ _ _ | .unknownDirective _ | .tooManyNames _ _
  | .duplicate _ _ _ => fun _ hf => nomatch hf

end

theorem Program.HasFault.warranted {p : Program} (h : p.HasFault f) : f.Warranted := by
  cases h with
  | signature _ hfault => exact TypeExpr.HasFault.warranted hfault
  | duplicate _ _ => exact fun _ hf => nomatch hf
  | body _ hfault => exact hfault.warranted

end Warranted

section Constant

variable {width n : Nat} {t : Token}

theorem Expr.lower_number (h : numberValue? t.text.toList = some n) (b : Build) :
    (Expr.number t).lower width b = (.ok ⟨.int width, .number n⟩, b) := by
  unfold Expr.lower
  rw [h]
  rfl

theorem Emitted.value_number {types : List Ir.Ty} {blocks : List Ir.Block} {s : Scope} {site : Site}
    (h : Emitted width types blocks ⟨s, .number t⟩ site)
    (hvalue : numberValue? t.text.toList = some n) : site.value = ⟨.int width, .number n⟩ := by
  obtain ⟨bindings, count, texts, -, -, hcompiles⟩ := h.compiles
  generalize site.code = code, site.value = value at hcompiles
  cases hcompiles with
  | number hvalue' =>
      obtain rfl := Option.some.inj (hvalue'.symm.trans hvalue)
      rfl

end Constant

namespace Emitter

variable {program : Program} {width : Nat} {name triple : String} {i : Nat} {d : FunctionDecl}
  {s : Scope} {t : Token}

/-- The function of a declaration is emitted with each live literal as a constant in it. -/
theorem exists_constant_of_emit {text : String} {e : Emitter} {n : Nat}
    (hemit : (new program width name triple).emit = (.ok text, e))
    (hd : program.declarations[i]? = some d)
    (ht : ⟨s, .number t⟩ ∈ d.occurrences (literalsOf (program.declarations.take i)))
    (hvalue : numberValue? t.text.toList = some n) :
    ∃ f site, e.module.functions[i]? = some f ∧
      Emitted width (f.parameters.map (·.type)) f.blocks ⟨s, .number t⟩ site ∧
      site.value = ⟨.int width, .number n⟩ := by
  have hnames := congrArg (·[i]?) (defines_of_emit hemit).1.names
  rw [List.getElem?_map, List.getElem?_map, hd] at hnames
  obtain ⟨f, hf, -⟩ := Option.map_eq_some_iff.mp hnames
  obtain ⟨site, hsite⟩ := (realizes_of_emit hemit hd hf).exists_site ht
  exact ⟨f, site, hf, hsite, hsite.value_number hvalue⟩

/-- Number literals mean their digits. A live literal that is malformed stops the emission with its
own fault, if no fault is met before, and no other literal does so; otherwise it is a constant of
the type `int` with the value of its digits in base ten. Underscores behind the first character of
any literals, dead ones too, do not change what is emitted. -/
theorem numbers_of_parse {source : String} (hparse : Program.parse source = .ok program) :
    (∀ t ∈ program.numbers, IsNumeral t.text.toList) ∧
    (∀ (width : Nat) (name triple : String) (i : Nat) (d : FunctionDecl) (s : Scope) (t : Token),
      program.declarations[i]? = some d →
      ⟨s, .number t⟩ ∈ d.occurrences (literalsOf (program.declarations.take i)) →
      t ∈ program.numbers ∧
      ((new program width name triple).emit.1 =
          .error (.fault ⟨.invalidNumber t.text, t.span.start⟩) →
        Malformed t.text.toList) ∧
      (Malformed t.text.toList → StopsBy t (new program width name triple).emit.1 ∨
        ∃ f : LoweringFault, (new program width name triple).emit.1 = .error f ∧
          DeclarationsHaveFault [] program.declarations f) ∧
      (¬ Malformed t.text.toList → ∃ (digits : List Nat) (n : Nat),
        HasDigits t.text.toList digits ∧ n = Nat.ofDigits 10 digits.reverse ∧
        (∀ b, (Expr.number t).lower width b = (.ok ⟨.int width, .number n⟩, b)) ∧
        ∀ text e, (new program width name triple).emit = (.ok text, e) →
          ∃ (f : Ir.Function) (site : Site), e.module.functions[i]? = some f ∧
            Emitted width (f.parameters.map (·.type)) f.blocks ⟨s, .number t⟩ site ∧
            site.value = ⟨.int width, .number n⟩)) ∧
    (∃! layout : Layout, layout.text = source ∧ Derives source program layout.spans) ∧
    ∀ layout other : Layout, layout.text = source → Derives source program layout.spans →
      layout.Respelled program.numbers other → ∃ program', Program.parse other.text = .ok program' ∧
        ∀ width name triple, (new program' width name triple).emit.1.toOption =
            (new program width name triple).emit.1.toOption ∧
          (new program' width name triple).emit.2.module =
            (new program width name triple).emit.2.module := by
  have hnumeral := fun t ht => Program.isNumeral_of_numbers (t := t) hparse ht
  refine ⟨hnumeral, fun width name triple i d s t hd ht => ?_,
    Program.existsUnique_layout hparse, ?_⟩
  · have hmem := Program.mem_numbers_of_occurrence hd ht
    have hmalformed := (hnumeral t hmem).malformed_iff
    refine ⟨hmem, fun hemit => ?_, fun hbad => ?_, fun hgood => ?_⟩
    · exact hmalformed.mpr ((hasFault_of_emit hemit).warranted t.text rfl)
    · exact stopsBy_emit hparse width name triple hd ht (hmalformed.mp hbad)
    · obtain ⟨n, hvalue⟩ := Option.ne_none_iff_exists'.mp (mt hmalformed.mpr hgood)
      obtain ⟨digits, hdigits, hn⟩ := exists_digits_of_numberValue? hvalue
      exact ⟨digits, n, hdigits, hn, Expr.lower_number hvalue, fun text e hemit =>
        exists_constant_of_emit hemit hd ht hvalue⟩
  · rintro layout other rfl hderives hother
    exact Program.parse_respelled hparse hderives hother

/-- Digits of two scripts, with underscores between and behind them. -/
def scriptsSource : String :=
  "f() int \x7b :1_٢_ \x7d"

/-- Tells the number literals with this text from other expressions. -/
def isNumberOf (text : String) : Expr → Bool
  | .number token => token.text = text
  | _ => false

theorem exists_number_of_any {text : String}
    (h : (d.occurrences []).any (isNumberOf text ·.expression) = true) :
    ∃ s t, ⟨s, .number t⟩ ∈ d.occurrences [] ∧ t.text = text := by
  obtain ⟨⟨s, expression⟩, hmem, hnumber⟩ := List.any_eq_true.mp h
  cases expression with
  | number token => exact ⟨s, token, hmem, of_decide_eq_true hnumber⟩
  | string _ | name _ | binary _ _ _ _ => cases hnumber

theorem numbers_of_parse_scripts : ∃ (program program' : Program) (text : String)
    (d : FunctionDecl) (s : Scope) (t : Token) (layout : Layout),
    Program.parse scriptsSource = .ok program ∧
    (new program 32 "main" unknownTriple).emit.1 = .ok text ∧
    program.declarations[0]? = some d ∧ ⟨s, .number t⟩ ∈ d.occurrences [] ∧
    t.text = "1_٢_" ∧ HasDigits t.text.toList [1, 2] ∧
    (∀ b, (Expr.number t).lower 32 b = (.ok ⟨.int 32, .number 12⟩, b)) ∧
    layout.text = scriptsSource ∧
    Program.parse (layout.unscored program.numbers).text = .ok program' ∧
    (new program' 32 "main" unknownTriple).emit.1.toOption = some text := by
  obtain ⟨program, text, e, d, f, hparse, hemit, hd, hf, hnumber⟩ :=
    exists_function_of_any 32 scriptsSource
      (fun d _ => (d.occurrences []).any (isNumberOf "1_٢_" ·.expression)) (by decide +kernel)
  obtain ⟨s, t, ht, htext⟩ := exists_number_of_any hnumber
  obtain ⟨hnumeral, hlive, ⟨layout, ⟨hlayout, hderives⟩, -⟩, hrespelled⟩ := numbers_of_parse hparse
  obtain ⟨hmem, -, -, hvalue⟩ := hlive 32 "main" unknownTriple 0 d s t hd ht
  have hgood : ¬ Malformed t.text.toList := by
    rw [(hnumeral t hmem).malformed_iff, htext]
    decide
  obtain ⟨digits, n, hdigits, rfl, hlower, -⟩ := hvalue hgood
  obtain rfl : digits = [1, 2] := by
    have hscripts : t.text.toList.filter (· ≠ '_') = ['1', '٢'] := by
      rw [htext]
      decide
    rw [HasDigits, hscripts] at hdigits
    obtain ⟨one, rest, hone, hrest, rfl⟩ := List.forall₂_cons_left_iff.mp hdigits
    obtain ⟨two, _, htwo, hnil, rfl⟩ := List.forall₂_cons_left_iff.mp hrest
    obtain rfl := List.forall₂_nil_left_iff.mp hnil
    obtain rfl : one = 1 := Option.some.inj (hone.symm.trans (by decide))
    obtain rfl : two = 2 := Option.some.inj (htwo.symm.trans (by decide))
    rfl
  obtain ⟨program', hparse', hsame⟩ :=
    hrespelled layout _ hlayout hderives (layout.respelled_unscored program.numbers)
  have hsame := (hsame 32 "main" unknownTriple).1
  rw [hemit] at hsame
  exact ⟨program, program', text, d, s, t, layout, hparse, congrArg Prod.fst hemit, hd, ht, htext,
    hdigits, hlower, hlayout, hparse', hsame⟩

/-- A fraction behind a name that stands for nothing. -/
def fractionSource : String :=
  "f() int \x7b :a + ½ \x7d"

/-- Tells a fault of this name, which stands for nothing. -/
def isUnknownName (name : String) : LoweringError → Bool
  | .unknownName other => other = name
  | _ => false

/-- The name stops the emission before the fraction is met. -/
theorem name_before_fraction : ∃ (program : Program) (d : FunctionDecl) (s : Scope) (t : Token)
    (f : LoweringFault), Program.parse fractionSource = .ok program ∧
    program.declarations[0]? = some d ∧ ⟨s, .number t⟩ ∈ d.occurrences [] ∧
    Malformed t.text.toList ∧
    (new program 64 "main" unknownTriple).emit.1 = .error f ∧ f.error = .unknownName "a" ∧
    f ≠ ⟨.invalidNumber t.text, t.span.start⟩ := by
  have hstops : ((Program.parse fractionSource).toOption.any fun program =>
      stopsWith (isUnknownName "a" ·.error) (new program 64 "main" unknownTriple).emit.1 &&
      program.declarations.head?.any fun d =>
        (d.occurrences []).any (isNumberOf "½" ·.expression)) = true := by decide +kernel
  obtain ⟨program, hparse, hprogram⟩ := Program.exists_parse_of_any hstops
  obtain ⟨hname, hany⟩ := Bool.and_eq_true_iff.mp hprogram
  obtain ⟨d, hd, hnumber⟩ := (Option.any_eq_true _ _).mp hany
  obtain ⟨s, t, ht, htext⟩ := exists_number_of_any hnumber
  have hbad : Malformed t.text.toList := by
    rw [htext]
    exact .inl ⟨'½', by decide, by decide, by decide⟩
  rw [List.head?_eq_getElem?] at hd
  obtain ⟨⟨error, l⟩, hemit, hname⟩ := exists_of_stopsWith hname
  cases error with
  | unknownName name =>
      obtain rfl : name = "a" := of_decide_eq_true hname
      refine ⟨program, d, s, t, _, hparse, hd, ht, hbad, hemit, rfl, fun h => ?_⟩
      cases h
  | _ => cases hname

end Emitter

end KestrelCompiler
