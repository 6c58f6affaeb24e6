/-!
Names of one function. A name that is taken already gets a number after a point; each base name
counts on from the last number it gave out.
-/

namespace KestrelCompiler.Ir

structure NameScope where
  used : List String := []
  counts : List (String × Nat) := []

namespace NameScope

def numbered (base : String) (n : Nat) : String :=
  base ++ "." ++ toString n

/-- The first free number after `count`. Among one more number than there are names, one is
free. -/
def freeNumber (used : List String) (base : String) (count : Nat) : Nat :=
  ((List.range' (count + 1) (used.length + 1)).find? fun n =>
    !used.contains (numbered base n)).getD (count + 1)

/-- Takes a name, or a numbered one where it is taken already. -/
def register (s : NameScope) (name : String) : String × NameScope :=
  if s.used.contains name then
    let n := freeNumber s.used name ((s.counts.lookup name).getD 0)
    (numbered name n, ⟨numbered name n :: s.used, (name, n) :: s.counts⟩)
  else (name, { s with used := name :: s.used })

end NameScope

end KestrelCompiler.Ir
