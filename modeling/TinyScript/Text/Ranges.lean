/-!
# Sets of characters as ranges

The classes of characters that a standard lists are tables of inclusive ranges of code points.
-/

namespace TinyScript.Text

/-- `n` lies in one of the inclusive ranges -/
def inRanges (ranges : List (Nat × Nat)) (n : Nat) : Bool :=
  ranges.any fun range => range.1 ≤ n && n ≤ range.2

end TinyScript.Text
