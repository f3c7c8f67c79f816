import TinyScript.Text.Ranges

/-!
# Blank characters

`isBlank` is the Unicode property White_Space: the 25 characters that separate the lexemes of a
program and mean nothing else.  It is wider than the test of the core library, which knows the
ASCII ones only.
-/

namespace TinyScript.Text

/-- the inclusive ranges of code points with the property White_Space -/
def blankRanges : List (Nat × Nat) :=
  [(0x9, 0xD), (0x20, 0x20), (0x85, 0x85), (0xA0, 0xA0), (0x1680, 0x1680), (0x2000, 0x200A),
   (0x2028, 0x2029), (0x202F, 0x202F), (0x205F, 0x205F), (0x3000, 0x3000)]

def isBlank (c : Char) : Bool := inRanges blankRanges c.toNat

end TinyScript.Text
