/-!
# Doubles as exact numbers

A finite double is `± mantissa · 2 ^ exponent`.  `Binary64.ofFloat` reads that form off the bits, so
that what a program does with a double beyond arithmetic and comparison (rounding to an integer,
telling whole numbers from others, writing it down) is computed on integers.
-/

namespace TinyScript

inductive Binary64 where
  | finite (negative : Bool) (mantissa : Nat) (exponent : Int)
  | infinite (negative : Bool)
  | nan
deriving DecidableEq, Repr

namespace Binary64

/-- the leading bit of a mantissa of 53 bits, which is not written down -/
def leadingBit : Nat := 1 <<< 52

/-- one sign bit, eleven bits of exponent and 52 bits of fraction; the least exponent is shared by
the numbers that have lost their leading bit -/
def ofBits (bits : Nat) : Binary64 :=
  let negative := (bits >>> 63) % 2 == 1
  let biased : Nat := (bits >>> 52) % 2048
  let fraction : Nat := bits % leadingBit
  if biased = 2047 then
    if fraction = 0 then .infinite negative else .nan
  else if biased = 0 then .finite negative fraction (-1074)
  else .finite negative (leadingBit + fraction) ((biased : Int) - 1075)

def ofFloat (x : Float) : Binary64 := ofBits x.toBits.toNat

def signed (negative : Bool) (n : Nat) : Int := if negative then -(n : Int) else n

/-- what a mantissa is divided by on account of a negative exponent -/
def divisor (exponent : Int) : Int := (1 <<< (-exponent).toNat : Nat)

/-- the greatest integer that is not above the number -/
def floor? : Binary64 → Option Int
  | .finite negative mantissa exponent =>
    some (signed negative (mantissa <<< exponent.toNat) / divisor exponent)
  | _ => none

def whole? : Binary64 → Option Int
  | .finite negative mantissa exponent =>
    let n := signed negative (mantissa <<< exponent.toNat)
    if n % divisor exponent = 0 then some (n / divisor exponent) else none
  | _ => none

end Binary64

end TinyScript
