/-!
# Integers in decimal

An integer is written with a minus sign if it is negative and without leading zeros.
-/

namespace TinyScript.Decimal

/-- the digits of an integer behind its sign -/
def integerDigits (n : Int) : List Char :=
  if n < 0 then '-' :: Nat.toDigits 10 n.natAbs else Nat.toDigits 10 n.natAbs

def integer (n : Int) : String := String.ofList (integerDigits n)

theorem integerDigits_ofNat (n : Nat) : integerDigits n = Nat.toDigits 10 n := by
  simp [integerDigits]

end TinyScript.Decimal
