import KestrelCompiler.Phrase

/-!
Sessions: sequences of requests to one cursor. Each request gives a reply and leaves the cursor
where the next one finds it.
-/

namespace KestrelCompiler

inductive Request where
  | location
  | rest
  | hasMore
  | peek
  | advance
  | peekChunk
  | source
  | charAt (l : Location)
  | textFrom (l : Location)
  | textOf (s : Span)
  | commit (l : Location)
  | peekRun (accepts : Char → Bool)
  | takeRun (accepts : Char → Bool)
  | peekLiteral (text : String)
  | takeLiteral (text : String)
  | seesKeyword (text : String)
  | takeKeyword (text : String)
  | expect (text : String)
  | rule (r : RuleName)
  | required (r : RuleName) (message : String)
  | optional (r : RuleName)
  | binary (levels : List (PrecedenceLevel (Option Operation))) (operand : RuleName)

inductive Reply where
  | none
  | flag (b : Bool)
  | character (c : Char)
  | text (t : List Char)
  | location (l : Location)
  | span (s : Span)
  | token (t : Token)
  | outcome (o : Outcome (Option Phrase))
  /-- The cursor would have moved back. -/
  | refused (current wanted : Location)
  /-- The cursor stands before the start of the source. -/
  | outside

namespace Reply

def ofOption {α : Type} (reply : α → Reply) : Option α → Reply
  | some a => reply a
  | Option.none => none

/-- The wording of a refusal. -/
def refusal (current wanted : Location) : String :=
  "cannot move cursor back from " ++ current.describe ++ " to " ++ wanted.describe

end Reply

namespace Request

/-- Runs a rule for its outcome. -/
def outcomeOf (r : Rule (Option Phrase)) (c : Cursor) : Reply × Cursor :=
  let (outcome, c) := r c
  (.outcome outcome, c)

/-- Tells whether a request begins by moving the cursor over blanks. -/
def skipsBlank : Request → Bool
  | source | charAt _ | textFrom _ | textOf _ | commit _ => false
  | _ => true

def perform (request : Request) (c : Cursor) : Reply × Cursor :=
  match request with
  | location => (.location c.skipBlank.location, c.skipBlank)
  | rest => (.text (Text.sliceFrom c.source c.skipBlank.location.offset), c.skipBlank)
  | hasMore => (.flag !c.skipBlank.atEnd, c.skipBlank)
  | peek => (.ofOption .character c.skipBlank.peek?, c.skipBlank)
  | advance => (.ofOption .character c.takeChar.1, c.takeChar.2)
  | peekChunk => (.ofOption .span (Lexeme.chunk c.skipBlank), c.skipBlank)
  | source => (.text c.source, c)
  | charAt l => (.ofOption .character (c.charAt? l), c)
  | textFrom l => (.ofOption .text (c.textFrom? l), c)
  | textOf s => (.ofOption .text (c.textOf? s), c)
  | commit l =>
    match c.commit? l with
    | some c => (.none, c)
    | none => (.refused c.location l, c)
  | peekRun accepts => (.ofOption .span (Lexeme.run accepts c.skipBlank), c.skipBlank)
  | takeRun accepts =>
    let (token, c) := c.takeLexeme (.run accepts)
    (.ofOption .token token, c)
  | peekLiteral text => (.ofOption .span (Lexeme.literal text c.skipBlank), c.skipBlank)
  | takeLiteral text =>
    let (token, c) := c.takeLexeme (.literal text)
    (.ofOption .token token, c)
  | seesKeyword text => (.flag (Lexeme.keyword text c.skipBlank).isSome, c.skipBlank)
  | takeKeyword text =>
    let (token, c) := c.takeLexeme (.keyword text)
    (.ofOption .token token, c)
  | expect text => outcomeOf ((some ∘ Phrase.token) <$> Rule.expect text) c
  | rule r => outcomeOf (some <$> r.rule) c
  | required r message => outcomeOf (some <$> Rule.required r.rule (.described message)) c
  | optional r => outcomeOf (Rule.optional r.rule) c
  | binary levels operand => outcomeOf (some <$> Rule.climb .binary operand.rule levels) c

def run (request : Request) (c : Cursor) : Reply × Cursor :=
  if request.skipsBlank && c.isOutside then (.outside, c) else request.perform c

end Request

/-- The replies to a sequence of requests, each with the cursor after it. -/
def Cursor.session (c : Cursor) : List Request → List (Reply × Cursor)
  | [] => []
  | request :: rest =>
    let (reply, c) := request.run c
    (reply, c) :: c.session rest

end KestrelCompiler
