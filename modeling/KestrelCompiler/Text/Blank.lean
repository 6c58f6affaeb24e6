import KestrelCompiler.Text.CharRange

/-!
White space: what may stand between two lexemes.
-/

namespace KestrelCompiler.Text

/-- The space separators of Unicode 14.0 and the characters of the bidirectional classes B, S and
WS. -/
def blankRanges : List (Nat × Nat) :=
  [(0x9, 0xD), (0x1C, 0x20), (0x85, 0x85), (0xA0, 0xA0), (0x1680, 0x1680), (0x2000, 0x200A),
   (0x2028, 0x2029), (0x202F, 0x202F), (0x205F, 0x205F), (0x3000, 0x3000)]

def isBlank (c : Char) : Bool :=
  inRanges blankRanges c.toNat

end KestrelCompiler.Text
