/-!
Similarity of texts, which tells the known words that a mistyped one may stand for. Two texts share
their longest common block, and what is shared on the left of it and on the right of it.
-/

namespace KestrelCompiler.Text

/-- How many characters two texts have in common before the first difference. -/
def agreement : List Char → List Char → Nat
  | c :: a, d :: b => if c = d then agreement a b + 1 else 0
  | _, _ => 0

/-- A stretch of characters that two texts have in common, after `left` and `right` others. -/
structure Block where
  left : Nat
  right : Nat
  size : Nat

def blockAt (a b : List Char) (left right : Nat) : Block :=
  ⟨left, right, agreement (a.drop left) (b.drop right)⟩

def blocks (a b : List Char) : List Block :=
  (List.range a.length).flatMap fun left => (List.range b.length).map (blockAt a b left)

/-- The longest common block; of several, the first one in `a`, and of those the first in `b`. -/
def longestBlock? (a b : List Char) : Option Block :=
  (blocks a b).maxOn? Block.size

theorem left_lt_of_longestBlock? {a b : List Char} {block : Block}
    (h : longestBlock? a b = some block) : block.left < a.length := by
  have hmem := List.maxOn?_mem h
  simp only [blocks, List.mem_flatMap, List.mem_map, List.mem_range] at hmem
  obtain ⟨left, hleft, right, _, rfl⟩ := hmem
  exact hleft

/-- The number of characters that two texts share. -/
def sharedCount (a b : List Char) : Nat :=
  match _ : longestBlock? a b with
  | none => 0
  | some ⟨_, _, 0⟩ => 0
  | some ⟨left, right, size + 1⟩ =>
    sharedCount (a.take left) (b.take right) + (size + 1) +
      sharedCount (a.drop (left + (size + 1))) (b.drop (right + (size + 1)))
termination_by a.length
decreasing_by
  all_goals
    have hleft := left_lt_of_longestBlock? ‹_›
    simp only [List.length_take, List.length_drop] at hleft ⊢
    omega

/-- A known word beside a given one: the characters that both share, and those that they have
together. -/
structure Likeness where
  known : String
  shared : Nat
  total : Nat

namespace Likeness

def between (known given : String) : Likeness where
  known := known
  shared := sharedCount known.toList given.toList
  total := known.length + given.length

/-- Two words are close if three fifths of their characters are shared. -/
def isClose (l : Likeness) : Bool :=
  3 * l.total ≤ 10 * l.shared

/-- The closer word comes first, and of equally close ones the one with the greater spelling. -/
def before (l m : Likeness) : Bool :=
  m.shared * l.total < l.shared * m.total ||
    m.shared * l.total = l.shared * m.total && m.known ≤ l.known

end Likeness

/-- No word shares more characters than it has, which rules out those of very different length. -/
def mayBeClose (known given : String) : Bool :=
  3 * (known.length + given.length) ≤ 10 * min known.length given.length

/-- The known words that a given one is close to, three at most, in the order of their spelling. -/
def closeWords (known : List String) (given : String) : List String :=
  let candidates := (known.filter (mayBeClose · given)).map (Likeness.between · given)
  let close := candidates.filter Likeness.isClose
  (((close.mergeSort Likeness.before).take 3).map Likeness.known).mergeSort (· ≤ ·)

end KestrelCompiler.Text
