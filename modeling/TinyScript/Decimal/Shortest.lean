import TinyScript.Binary64

/-!
# Shortest decimals

`shortest tie mantissa exponent` is the decimal with the fewest digits among those that a reader
rounding to nearest takes for the double `mantissa · 2 ^ exponent`, and of the decimals with that
many digits the one closest to it.

The reals that are read as the double form an interval, with its ends if the mantissa is even.  For
one digit, two digits, and so on, the two neighbours of the double among the decimals of so many
digits are tried; seventeen digits always suffice.
-/

namespace TinyScript.Decimal

/-- which of two equally close decimals is taken -/
inductive Tie where
  | up
  | toEven
deriving DecidableEq, Repr

/-- the positive number `coefficient · 10 ^ exponent` -/
structure Scientific where
  coefficient : Nat
  exponent : Int
deriving DecidableEq, Repr

namespace Scientific

def digits (d : Scientific) : List Char := Nat.toDigits 10 d.coefficient

/-- how many of the digits stand before the point: the number is `0.d₁d₂… · 10 ^ point` -/
def point (d : Scientific) : Int := d.digits.length + d.exponent

/-- the same number with at most `n` zeros fewer at the end of the coefficient -/
def trim : Nat → Scientific → Scientific
  | 0, d => d
  | n + 1, d =>
    if d.coefficient % 10 = 0 then trim n ⟨d.coefficient / 10, d.exponent + 1⟩ else d

end Scientific

/-- A value and the interval around it in which a decimal has to lie, as numerators over one
denominator. -/
structure Target where
  low : Nat
  value : Nat
  high : Nat
  denominator : Nat
  /-- the ends of the interval belong to it -/
  closed : Bool

namespace Target

/-- half the distance to the next double on either side; below a power of two the doubles lie twice
as dense -/
def ofBinary (mantissa : Nat) (exponent : Int) : Target :=
  let scale := 1 <<< (exponent - 2).toNat
  let below := if mantissa = Binary64.leadingBit ∧ -1074 < exponent then 1 else 2
  { low := (4 * mantissa - below) * scale
    value := 4 * mantissa * scale
    high := (4 * mantissa + 2) * scale
    denominator := 1 <<< (2 - exponent).toNat
    closed := mantissa % 2 = 0 }

/-- the number of decimal digits before the point; negative or zero for a number below one, by the
zeros that follow the point -/
def point (t : Target) : Int :=
  if t.denominator ≤ t.value then (Nat.toDigits 10 (t.value / t.denominator)).length
  else 1 - (Nat.toDigits 10 (t.denominator / t.value)).length

def inUnits (t : Target) (grid : Int) : Target :=
  let factor := Nat.pow 10 (-grid).toNat
  { t with
    low := t.low * factor
    value := t.value * factor
    high := t.high * factor
    denominator := t.denominator * Nat.pow 10 grid.toNat }

/-- the integer next to the value that lies in the interval, the closer one if both do -/
def integer? (tie : Tie) (t : Target) : Option Nat :=
  let below := t.value / t.denominator
  let above := below + 1
  let lowHit :=
    if t.closed then t.low ≤ below * t.denominator else t.low < below * t.denominator
  let highHit :=
    if t.closed then above * t.denominator ≤ t.high else above * t.denominator < t.high
  if lowHit then
    if highHit then
      match compare (2 * t.value) ((below + above) * t.denominator) with
      | .lt => some below
      | .gt => some above
      | .eq =>
        match tie with
        | .up => some above
        | .toEven => some (if below % 2 = 0 then below else above)
    else some below
  else if highHit then some above
  else none

/-- tries `n` digits, `n + 1` digits, and so on, `tries` times -/
def search (tie : Tie) (t : Target) : (tries n : Nat) → Scientific
  | 0, n => ⟨(t.inUnits (t.point - n)).value / (t.inUnits (t.point - n)).denominator, t.point - n⟩
  | tries + 1, n =>
    match (t.inUnits (t.point - n)).integer? tie with
    | some coefficient => ⟨coefficient, t.point - n⟩
    | none => search tie t tries (n + 1)

end Target

/-- the shortest decimal of the double `mantissa · 2 ^ exponent`, for a positive mantissa -/
def shortest (tie : Tie) (mantissa : Nat) (exponent : Int) : Scientific :=
  ((Target.ofBinary mantissa exponent).search tie 17 1).trim 17

end TinyScript.Decimal
