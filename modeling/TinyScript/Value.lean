import TinyScript.Binary64
import TinyScript.Decimal.Integer
import TinyScript.Decimal.Layout
import TinyScript.Text.Quoted

/-!
# Values

A value is a 32-bit integer, a double or a text.  Integers wrap around.  A double that is whole and
fits 32 bits counts as an integer, so every result of arithmetic passes through `Value.demote`.
-/

namespace TinyScript

inductive Value where
  | int (n : Int32)
  | float (x : Float)
  | text (s : String)
deriving DecidableEq

inductive Kind where
  | integer
  | float
  | string
deriving DecidableEq, Repr

def Kind.name : Kind → String
  | .integer => "integer"
  | .float => "float"
  | .string => "string"

namespace Value

def kind : Value → Kind
  | .int _ => .integer
  | .float _ => .float
  | .text _ => .string

def Fits (n : Int) : Prop := -2147483648 ≤ n ∧ n < 2147483648

instance (n : Int) : Decidable (Fits n) := inferInstanceAs (Decidable (_ ∧ _))

/-- a whole double that fits is an integer, every other one stays as it is -/
def demote (x : Float) : Value :=
  match (Binary64.ofFloat x).whole? with
  | some n => if Fits n then .int (Int32.ofInt n) else .float x
  | none => .float x

def ofBool (b : Bool) : Value := .int (if b then 1 else 0)

def toFloat? : Value → Option Float
  | .int n => some (Float.ofInt n.toInt)
  | .float x => some x
  | .text _ => none

/-- A half is added to a double and the sum is rounded down, if it is finite.  The sum is a double too. -/
def nearest? (x : Float) : Option Int := (Binary64.ofFloat (x + 0.5)).floor?

/-- whether a double counts as true: it is not rounded to zero -/
def floatTruth (x : Float) : Bool :=
  match Binary64.ofFloat (x + 0.5) with
  | .nan => false
  | .infinite _ => true
  | b => b.floor? != some 0

/-- texts are neither true nor false -/
def truth? : Value → Option Bool
  | .int n => some (n != 0)
  | .float x => some (floatTruth x)
  | .text _ => none

/-- how a value is printed: a whole double with all its digits and a zero behind the point -/
def printed : Value → String
  | .int n => Decimal.integer n.toInt
  | .float x =>
    match Binary64.ofFloat x, (Binary64.ofFloat x).whole? with
    | .finite negative _ _, some n => String.ofList (Decimal.exactWhole negative n.natAbs)
    | _, _ => Decimal.Layout.plain.text x
  | .text s => s

def described : Value → String
  | .text s => Kind.string.name ++ " " ++ Text.quoted s
  | v => v.kind.name ++ " " ++ v.printed

end Value

end TinyScript
