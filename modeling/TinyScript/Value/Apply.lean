import TinyScript.Failure

/-!
# Operators on values

`Value.apply` is the table of the binary operators.  Two integers are combined in 32 bits, except
for a quotient that is no integer.  All other numbers are combined as doubles.  Texts can be joined,
compared for equality, shortened by a part of them and repeated.  Every other combination is a type
mismatch.
-/

namespace TinyScript

namespace Text

/-- the text without the leftmost occurrence of `part` -/
def removeFirst (part : List Char) : List Char → List Char
  | [] => []
  | c :: cs =>
    if part.isPrefixOf (c :: cs) then (c :: cs).drop part.length else c :: removeFirst part cs

/-- the text `count` times in a row -/
def repeated (cs : List Char) (count : Nat) : List Char :=
  if cs.isEmpty then [] else (List.replicate count cs).flatten

theorem repeated_eq_flatten (cs : List Char) (count : Nat) :
    repeated cs count = (List.replicate count cs).flatten := by
  cases cs with
  | nil => simp [repeated]
  | cons c cs => rfl

end Text

namespace Value

/-- The operators `+`, `-`, `*` and `/` on two integers.  A division answers only if the divisor is
not zero and divides the other operand. -/
def integerArithmetic? (op : Operator) (a b : Int32) : Option Int32 :=
  match op with
  | .add => some (a + b)
  | .sub => some (a - b)
  | .mul => some (a * b)
  | .div => if b ≠ 0 ∧ a % b = 0 then some (a / b) else none
  | _ => none

def floatArithmetic (op : Operator) (a b : Float) : Float :=
  match op with
  | .add => a + b
  | .sub => a - b
  | .mul => a * b
  | _ => a / b

def mismatch (op : Operator) (left right : Value) : Failure :=
  .typeMismatch op left.kind right.kind

/-- joining two texts, removing a part, and repeating -/
def textArithmetic (op : Operator) (left right : Value) : Except Failure Value :=
  match op, left, right with
  | .add, .text a, .text b => .ok (.text (a ++ b))
  | .sub, .text a, .text b => .ok (.text (String.ofList (Text.removeFirst b.toList a.toList)))
  | .mul, .text a, .int n =>
    if n < 0 then .error (.invalidCoercion right .repeatCount)
    else .ok (.text (String.ofList (Text.repeated a.toList n.toInt.toNat)))
  | _, _, _ => .error (mismatch op left right)

def arithmetic (op : Operator) (left right : Value) : Except Failure Value :=
  let whole :=
    match left, right with
    | .int a, .int b => integerArithmetic? op a b
    | _, _ => none
  match whole, left.toFloat?, right.toFloat? with
  | some n, _, _ => .ok (.int n)
  | none, some a, some b => .ok (demote (floatArithmetic op a b))
  | none, _, _ => textArithmetic op left right

def compareFloats (op : Operator) (a b : Float) : Bool :=
  match op with
  | .eq => a == b
  | .ne => a != b
  | .lt => a < b
  | .gt => b < a
  | .le => a ≤ b
  | _ => b ≤ a

/-- Numbers are compared as doubles, texts only for equality.  An operator that does not compare is not
supported. -/
def comparison (op : Operator) (left right : Value) : Except Failure Value :=
  match left.toFloat?, right.toFloat? with
  | some a, some b =>
    if op.isComparison then .ok (ofBool (compareFloats op a b))
    else .error (.unsupportedOperator op.symbol)
  | _, _ =>
    match op, left, right with
    | .eq, .text a, .text b => .ok (ofBool (a == b))
    | .ne, .text a, .text b => .ok (ofBool (a != b))
    | _, _, _ => .error (mismatch op left right)

def logical (op : Operator) (left right : Value) : Except Failure Value :=
  match left.truth?, right.truth? with
  | some a, some b => .ok (ofBool (if op = .and then a && b else a || b))
  | _, _ => .error (mismatch op left right)

def apply (op : Operator) (left right : Value) : Except Failure Value :=
  match op with
  | .add | .sub | .mul | .div => arithmetic op left right
  | .and | .or => logical op left right
  | _ => comparison op left right

def negate (v : Value) : Except Failure Value :=
  match v.truth? with
  | some t => .ok (ofBool !t)
  | none => .error (.negationMismatch v.kind)

/-- the value of `round(v)`: only doubles can be rounded -/
def round (v : Value) : Except Failure Value :=
  match v with
  | .float x =>
    match nearest? x with
    | some n =>
      if Fits n then .ok (.int (Int32.ofInt n)) else .error (.invalidCoercion v .roundedInteger)
    | none => .error (.invalidCoercion v .roundedInteger)
  | _ => .error (.invalidCoercion v .roundedInteger)

def condition (v : Value) : Except Failure Bool :=
  match v.truth? with
  | some t => .ok t
  | none => .error (.invalidCoercion v .boolean)

end Value

end TinyScript
