/-!
Terminal styles. A style sequence is an escape character, `[`, parameters, fillers and one last
character; it changes how the text after it looks and has no width of its own.
-/

namespace KestrelCompiler.Text

def escapeChar : Char := '\x1b'

/-- Parameters are digits and the signs that stand next to them. -/
def isStyleParameter (c : Char) : Bool :=
  '0' ≤ c && c ≤ '?'

def isStyleFiller (c : Char) : Bool :=
  ' ' ≤ c && c ≤ '/'

def isStyleEnd (c : Char) : Bool :=
  '@' ≤ c && c ≤ '~'

/-- The text after the style sequence that `text` begins with, if it does. -/
def afterStyle? : List Char → Option (List Char)
  | '\x1b' :: '[' :: rest =>
    match (rest.dropWhile isStyleParameter).dropWhile isStyleFiller with
    | c :: after => if isStyleEnd c then some after else none
    | [] => none
  | _ => none

theorem length_afterStyle? {text after : List Char} (h : afterStyle? text = some after) :
    after.length < text.length := by
  unfold afterStyle? at h
  split at h
  · next rest =>
      split at h
      · next c tail heq =>
          have hle := ((List.dropWhile_suffix isStyleFiller).trans
            (List.dropWhile_suffix isStyleParameter (l := rest))).length_le
          rw [heq] at hle
          split at h <;> simp_all
          omega
      · cases h
  · cases h

/-- The text without its style sequences. -/
def withoutStyles (text : List Char) : List Char :=
  match _ : afterStyle? text with
  | some after => withoutStyles after
  | none =>
    match text with
    | [] => []
    | c :: rest => c :: withoutStyles rest
termination_by text.length
decreasing_by
  · exact length_afterStyle? ‹_›
  · simp

def stripStyles (text : String) : String :=
  String.ofList (withoutStyles text.toList)

namespace Style

def boldRed : String := "\x1b[1;31m"
def bold : String := "\x1b[1m"
def boldBlue : String := "\x1b[1;34m"
def reset : String := "\x1b[0m"

end Style

end KestrelCompiler.Text
