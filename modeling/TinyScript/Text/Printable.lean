import TinyScript.Text.Ranges
import TinyScript.Text.Extending
import TinyScript.Text.Unassigned

/-!
# Printable characters

A character is printable when it can be seen where it stands: it is no control, format, surrogate
or private-use character, no separator but the ordinary space, no letter that stands for nothing, it
is assigned, and it does not extend the character before it.  `isPrintable` is that test; a quoted
text shows the other characters by number.
-/

namespace TinyScript.Text

/-- the inclusive ranges of the general categories Cc, Cf, Cs, Co, Zl, Zp and Zs, but for the
ordinary space -/
def invisibleRanges : List (Nat × Nat) :=
  [(0x0, 0x1F), (0x7F, 0xA0), (0xAD, 0xAD), (0x600, 0x605), (0x61C, 0x61C), (0x6DD, 0x6DD),
   (0x70F, 0x70F), (0x890, 0x891), (0x8E2, 0x8E2), (0x1680, 0x1680), (0x180E, 0x180E),
   (0x2000, 0x200F), (0x2028, 0x202F), (0x205F, 0x2064), (0x2066, 0x206F), (0x3000, 0x3000),
   (0xD800, 0xF8FF), (0xFEFF, 0xFEFF), (0xFFF9, 0xFFFB), (0x110BD, 0x110BD), (0x110CD, 0x110CD),
   (0x13430, 0x1343F), (0x1BCA0, 0x1BCA3), (0x1D173, 0x1D17A), (0xE0001, 0xE0001),
   (0xE0020, 0xE007F), (0xF0000, 0xFFFFD), (0x100000, 0x10FFFD)]

/-- the inclusive ranges of the letters with the property Default_Ignorable_Code_Point: the Hangul
fillers, which hold the place of a letter and show nothing -/
def fillerRanges : List (Nat × Nat) := [(0x115F, 0x1160), (0x3164, 0x3164), (0xFFA0, 0xFFA0)]

/-- the printable ASCII characters come first because most texts have no others -/
def isPrintable (c : Char) : Bool :=
  let n := c.toNat
  (0x20 ≤ n && n ≤ 0x7E) ||
    !(inRanges invisibleRanges n || inRanges fillerRanges n || inRanges extendingRanges n ||
      inRanges unassignedRanges n)

end TinyScript.Text
