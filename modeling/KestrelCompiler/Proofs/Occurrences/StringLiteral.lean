import KestrelCompiler.Proofs.Ir.Escape
import KestrelCompiler.Proofs.Linking.Modularity
import KestrelCompiler.Proofs.Occurrences.Site

/-!
String literals in the emitted text. The live literals of all functions are counted in one order,
and each of them is a string constant of that number with its bytes, which the code refers to by its
address.
-/

namespace KestrelCompiler

open Ir (Ty Value Instruction StringConstant Results)

/-- A live string literal. -/
structure Literal where
  /-- The position of its function. -/
  function : Nat
  scope : Scope
  token : Token

/-- The string literals among the expressions of the function at a position. -/
def literalsAmong (function : Nat) (occurrences : List Occurrence) : List Literal :=
  occurrences.filterMap fun p => p.expression.literal?.map fun token => ⟨function, p.scope, token⟩

/-- The live string literals of declarations, of which the first is at the position `function`,
behind others. -/
def literalsFrom (function : Nat) (literals : List String) : List FunctionDecl → List Literal
  | [] => []
  | d :: rest =>
    literalsAmong function (d.occurrences literals) ++
      literalsFrom (function + 1) (d.literalsAfter literals) rest

/-- The live string literals in the order in which they are lowered. -/
def Program.liveLiterals (p : Program) : List Literal :=
  literalsFrom 0 [] p.declarations

section Order

variable {function k : Nat} {literals : List String} {l : Literal}

theorem map_text_literalsAmong (function : Nat) (occurrences : List Occurrence) :
    (literalsAmong function occurrences).map (·.token.text) = textsOf occurrences := by
  rw [literalsAmong, textsOf, List.map_filterMap, List.map_filterMap]
  congr 1
  funext p
  cases p.expression.literal? <;> rfl

theorem map_text_literalsFrom (function : Nat) (literals : List String)
    (declarations : List FunctionDecl) :
    literals ++ (literalsFrom function literals declarations).map (·.token.text) =
      declarations.foldl FunctionDecl.literalsAfter literals := by
  induction declarations generalizing function literals with
  | nil => exact List.append_nil literals
  | cons d rest ih =>
      rw [literalsFrom, List.map_append, map_text_literalsAmong, ← List.append_assoc,
        ← d.literalsAfter_eq, ih, List.foldl_cons]

/-- The scope of a literal knows the ones before it. -/
theorem Follows.length_scope {occurrences : List Occurrence} (h : Follows literals occurrences)
    (hl : (literalsAmong function occurrences)[k]? = some l) :
    l.scope.literals.length = literals.length + k ∧ l.function = function ∧
      ⟨l.scope, .string l.token⟩ ∈ occurrences := by
  induction occurrences generalizing literals k with
  | nil => cases hl
  | cons p rest ih =>
      obtain ⟨hp, hrest⟩ := h
      rw [literalsAmong] at hl
      cases hliteral : p.expression.literal? with
      | none =>
          rw [List.filterMap_cons_none (by rw [hliteral]; rfl)] at hl
          obtain ⟨hlength, hfunction, hmem⟩ := ih hrest hl
          refine ⟨?_, hfunction, List.mem_cons_of_mem _ hmem⟩
          simpa [textsOf, hliteral] using hlength
      | some token =>
          have hexpression := Expr.literal?_eq_some.mp hliteral
          rw [List.filterMap_cons_some (by rw [hliteral]; rfl)] at hl
          cases k with
          | zero =>
              cases hl
              refine ⟨by rw [hp token hexpression]; rfl, rfl, ?_⟩
              rw [← hexpression]
              exact List.mem_cons_self
          | succ k =>
              obtain ⟨hlength, hfunction, hmem⟩ := ih hrest hl
              refine ⟨?_, hfunction, List.mem_cons_of_mem _ hmem⟩
              rw [hlength]
              simp [textsOf, hliteral]
              omega

theorem exists_of_literalsFrom {declarations : List FunctionDecl}
    (hl : (literalsFrom function literals declarations)[k]? = some l) :
    l.scope.literals.length = literals.length + k ∧ ∃ i d, l.function = function + i ∧
      declarations[i]? = some d ∧ ⟨l.scope, .string l.token⟩ ∈
        d.occurrences ((declarations.take i).foldl FunctionDecl.literalsAfter literals) := by
  induction declarations generalizing function literals k with
  | nil => cases hl
  | cons d rest ih =>
      rw [literalsFrom, List.getElem?_append] at hl
      split at hl
      · obtain ⟨hlength, hfunction, hmem⟩ := (d.body.follows { literals }).length_scope hl
        exact ⟨hlength, 0, d, hfunction, rfl, hmem⟩
      · next hbehind =>
          obtain ⟨hlength, i, d', hfunction, hd', hmem⟩ := ih hl
          refine ⟨?_, i + 1, d', by omega, hd', hmem⟩
          have htexts := congrArg List.length
            (map_text_literalsAmong function (d.occurrences literals))
          rw [List.length_map] at htexts
          rw [hlength, d.literalsAfter_eq, List.length_append]
          omega

end Order

section Bytes

theorem length_toList_loop (bytes : ByteArray) (i : Nat) (read : List UInt8) :
    (ByteArray.toList.loop bytes i read).length = read.length + (bytes.size - i) := by
  induction i, read using ByteArray.toList.loop.induct bytes with
  | case1 i read hlt ih =>
      rw [ByteArray.toList.loop, if_pos hlt, ih, List.length_cons]
      omega
  | case2 i read hend =>
      rw [ByteArray.toList.loop, if_neg hend, List.length_reverse]
      omega

theorem Ir.StringConstant.length_bytes (s : StringConstant) : s.bytes.length = s.size := by
  rw [bytes, size, List.length_append, ByteArray.toList, length_toList_loop]
  exact congrArg (· + 1) (Nat.zero_add _)

/-- The line defines the string constant with this number, and it stands for these bytes. -/
def Ir.Initializes (line : String) (k : Nat) (bytes : List UInt8) : Prop :=
  ∃ body, line = "@\".str." ++ toString k ++ "\" = private constant [" ++
      toString bytes.length ++ " x i8] c\"" ++ body ++ "\"" ∧
    '"' ∉ body.toList ∧ unescape body.toList = bytes

theorem Ir.StringConstant.initializes (k : Nat) (s : StringConstant) :
    Ir.Initializes (s.render k) k s.bytes := by
  refine ⟨String.ofList (s.bytes.flatMap renderByte), ?_, ?_, ?_⟩
  · rw [s.length_bytes, render]
    simp only [inQuotes, stringName, bytesType, String.append_assoc]
    simp [← String.toList_inj]
  · rw [String.toList_ofList]
    exact quote_not_mem_render s.bytes
  · rw [String.toList_ofList]
    exact unescape_render s.bytes

end Bytes

/-- The code at the site is one instruction, which gives the address of the string constant with
this number and size. -/
structure Refers (blocks : List Ir.Block) (site : Site) (k size : Nat) : Prop where
  stands : Ir.Holds blocks site.block site.start site.code
  code : ∃ number, site.code = [⟨number, .stringAddress k size⟩] ∧
    site.value = ⟨.pointer .byte, .result number⟩
  gives : ∀ args, site.Gives blocks args (.address (.string k))

theorem Emitted.refers {width : Nat} {types : List Ty} {blocks : List Ir.Block} {s : Scope}
    {token : Token} {site : Site} (h : Emitted width types blocks ⟨s, .string token⟩ site) :
    Refers blocks site s.literals.length (StringConstant.size ⟨token.text⟩) := by
  obtain ⟨block, start, code, value⟩ := site
  obtain ⟨hstands, bindings, count, texts, -, -, hcompiles⟩ := h
  cases hcompiles with
  | string =>
      refine ⟨hstands, ⟨_, rfl, rfl⟩, fun args => ?_⟩
      exact Site.gives_of_evaluates count hstands fun results => ⟨_, .single rfl rfl⟩

namespace Emitter

variable {program : Program} {width : Nat} {e : Emitter} {name triple text : String}

/-- The string constants of a module are the live literals, counted from zero in the order of
lowering. What is written for each of them stands for the UTF-8 bytes of the literal and a zero. The
value of the literal is the address of this constant: its code gives it, and the function around it
does what the declaration says with that value. -/
theorem strings_of_emit (hemit : (new program width name triple).emit = (.ok text, e)) :
    ∃ lines, text = "\n".intercalate (e.module.header ++
        (e.module.functions.map Ir.Function.render ++ lines)) ∧
      lines.length = program.liveLiterals.length ∧
      ∀ k l, program.liveLiterals[k]? = some l →
        (∃ line, lines[k]? = some line ∧
          Ir.Initializes line k (l.token.text.toUTF8.toList ++ [0])) ∧
        (∀ args, (Expr.string l.token).eval width args l.scope = some (.address (.string k))) ∧
        ∃ d f site, program.declarations[l.function]? = some d ∧
          e.module.functions[l.function]? = some f ∧
          Refers f.blocks site k (l.token.text.utf8ByteSize + 1) ∧
          (0 < width →
            Implements width (literalsOf (program.declarations.take l.function)) d f) := by
  have hdefines := (defines_of_emit hemit).1
  have hstrings : e.module.strings.map (·.text) = program.liveLiterals.map (·.token.text) := by
    refine (hdefines.realizes rfl).1.trans ?_
    exact (map_text_literalsFrom 0 [] program.declarations).symm
  refine ⟨e.module.strings.mapIdx fun index s => s.render index, ?_, ?_, fun k l hl => ?_⟩
  · rw [text_of_emit hemit, Ir.Module.render_eq]
  · simpa using congrArg List.length hstrings
  obtain ⟨hlength, i, d, hfunction, hd, hmem⟩ := exists_of_literalsFrom hl
  rw [List.length_nil, Nat.zero_add] at hlength
  refine ⟨?_, fun args => by rw [Expr.eval, hlength], ?_⟩
  · have hconstant := congrArg (·[k]?) hstrings
    simp only [List.getElem?_map, hl, Option.map_some] at hconstant
    obtain ⟨s, hs, hsame⟩ := Option.map_eq_some_iff.mp hconstant
    refine ⟨s.render k, by rw [List.getElem?_mapIdx, hs]; rfl, ?_⟩
    rw [← hsame]
    exact s.initializes k
  · obtain ⟨f, hf⟩ : ∃ f, e.module.functions[i]? = some f := by
      have hnames := congrArg (·[i]?) hdefines.names
      simp only [List.getElem?_map, hd] at hnames
      obtain ⟨f, hf, -⟩ := Option.map_eq_some_iff.mp hnames
      exact ⟨f, hf⟩
    obtain ⟨site, hsite⟩ := (realizes_of_emit hemit hd hf).exists_site hmem
    have hrefers := hsite.refers
    rw [hlength] at hrefers
    rw [Nat.zero_add] at hfunction
    rw [hfunction]
    exact ⟨d, f, site, hd, hf, hrefers,
      fun hwidth => (hdefines.implements hwidth rfl).2 i d f hd hf⟩

/-- Two functions with two literals each, one of which is dead. -/
def quotesSource : String :=
  "f() char* \x7b : \"\\\"\\\\\" : \"dead\" \x7d " ++
    "g() char* \x7b if \"\\x\x7b00\x7d\" \x7b : \"\\u\x7b20ac\x7d\" \x7d \x7d"

/-- The last literal is one character of three bytes. -/
theorem strings_of_emit_quotes : ∃ program text e, Program.parse quotesSource = .ok program ∧
    (new program 64 "main" unknownTriple).emit = (.ok text, e) ∧
    program.liveLiterals.map (·.token.text) = ["\"\\", "\x00", "€"] ∧
    ∃ lines line, text = "\n".intercalate (e.module.header ++
        (e.module.functions.map Ir.Function.render ++ lines)) ∧ lines.length = 3 ∧
      lines[2]? = some line ∧ Ir.Initializes line 2 [0xE2, 0x82, 0xAC, 0] := by
  have hsource : ((Program.parse quotesSource).toOption.any fun program =>
      (new program 64 "main" unknownTriple).emit.1.isOk &&
        program.liveLiterals.map (·.token.text) = ["\"\\", "\x00", "€"]) = true := by decide +kernel
  obtain ⟨program, hparse, hprogram⟩ := Program.exists_parse_of_any hsource
  obtain ⟨hok, hliterals⟩ := Bool.and_eq_true_iff.mp hprogram
  have hliterals := of_decide_eq_true hliterals
  rcases hemit : (new program 64 "main" unknownTriple).emit with ⟨p | text, e⟩
  · rw [hemit] at hok
    cases hok
  obtain ⟨lines, htext, hlength, hlines⟩ := strings_of_emit hemit
  have hcount := congrArg List.length hliterals
  rw [List.length_map] at hcount
  have hlast := congrArg (·[2]?) hliterals
  simp only [List.getElem?_map] at hlast
  obtain ⟨l, hl, heuro⟩ := Option.map_eq_some_iff.mp hlast
  obtain ⟨⟨line, hline, hinitializes⟩, -⟩ := hlines 2 l hl
  rw [heuro] at hinitializes
  have hbytes : "€".toUTF8.toList ++ [0] = [0xE2, 0x82, 0xAC, 0] := by decide +kernel
  exact ⟨program, text, e, hparse, hemit, hliterals, lines, line, htext, hlength.trans hcount,
    hline, hbytes ▸ hinitializes⟩

end Emitter

end KestrelCompiler
