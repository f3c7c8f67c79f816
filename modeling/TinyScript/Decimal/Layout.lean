import TinyScript.Binary64
import TinyScript.Decimal.Shortest

/-!
# Layouts of decimals

The shortest digits of a double are written with a point among them, or with an exponent behind
them.  A `Layout` holds the decisions of one format, and the three formats of the project are
`Layout.inspected` (trees and generated messages), `Layout.plain` (printed values and tokens) and
`Layout.json` (the interchange form).
-/

namespace TinyScript.Decimal

structure Layout where
  /-- whether the digits `0.d₁d₂… · 10 ^ point` are written without an exponent -/
  positional : (point : Int) → Bool
  /-- a whole number ends in `.0` -/
  pointZero : Bool
  /-- a positive exponent has a sign -/
  exponentSign : Bool
  tie : Tie

namespace Layout

/-- an exponent below `10 ^ -4` and from `10 ^ 16` on -/
def inspected : Layout where
  positional point := -3 ≤ point && point ≤ 16
  pointZero := true
  exponentSign := false
  tie := .up

/-- never an exponent, however long the number is -/
def plain : Layout where
  positional _ := true
  pointZero := false
  exponentSign := false
  tie := .up

/-- an exponent below `10 ^ -5` and from `10 ^ 16` on, always with its sign -/
def json : Layout where
  positional point := -4 ≤ point && point ≤ 16
  pointZero := true
  exponentSign := true
  tie := .toEven

def zeros (n : Nat) : List Char := List.replicate n '0'

def withPoint (l : Layout) (digits : List Char) (point : Int) : List Char :=
  if point ≤ 0 then '0' :: '.' :: zeros (-point).toNat ++ digits
  else if digits.length ≤ point.toNat then
    digits ++ zeros (point.toNat - digits.length) ++ (if l.pointZero then ['.', '0'] else [])
  else digits.take point.toNat ++ '.' :: digits.drop point.toNat

/-- digits with a point after the first one and the exponent that makes up for it -/
def withExponent (l : Layout) (digits : List Char) (point : Int) : List Char :=
  let mantissa := if digits.length ≤ 1 then digits else digits.take 1 ++ '.' :: digits.drop 1
  let sign := if point - 1 < 0 then ['-'] else if l.exponentSign then ['+'] else []
  mantissa ++ 'e' :: sign ++ Nat.toDigits 10 (point - 1).natAbs

def writePositive (l : Layout) (d : Scientific) : List Char :=
  if l.positional d.point then l.withPoint d.digits d.point else l.withExponent d.digits d.point

/-- the sign of a zero is written too; the text of what is not finite is the same in all formats
that admit it -/
def write (l : Layout) (x : Float) : List Char :=
  match Binary64.ofFloat x with
  | .nan => ['N', 'a', 'N']
  | .infinite negative => (if negative then ['-'] else []) ++ ['i', 'n', 'f']
  | .finite negative mantissa exponent =>
    (if negative then ['-'] else []) ++
      (if mantissa = 0 then '0' :: (if l.pointZero then ['.', '0'] else [])
        else l.writePositive (shortest l.tie mantissa exponent))

def text (l : Layout) (x : Float) : String := String.ofList (l.write x)

end Layout

/-- Every digit of a whole double, and a zero behind the point. -/
def exactWhole (negative : Bool) (n : Nat) : List Char :=
  (if negative then ['-'] else []) ++ Nat.toDigits 10 n ++ ['.', '0']

end TinyScript.Decimal
