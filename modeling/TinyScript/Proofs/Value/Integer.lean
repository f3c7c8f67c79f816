import TinyScript.Proofs.Value.Whole

/-!
# Operators on integers

What the operators do with two integers, in 32 bits throughout.

* `compareFloats_ofInt`   comparing integers as doubles is comparing them as integers
* `apply_int`             the word that an operator gives, unless it is a division with a remainder
* `negate_int`, `condition_int`
-/

namespace TinyScript.Value

open Whole

def compareIntegers (op : Operator) (a b : Int32) : Bool :=
  match op with
  | .eq => a == b
  | .ne => a != b
  | .lt => a < b
  | .gt => b < a
  | .le => a ≤ b
  | _ => b ≤ a

theorem natAbs_toInt_lt (n : Int32) : n.toInt.natAbs < 2 ^ 53 := by
  have h1 := n.le_toInt
  have h2 := n.toInt_lt
  omega

theorem compare_ofInt (a b : Int32) :
    (Float.ofInt a.toInt).toModel.unpack.compare (Float.ofInt b.toInt).toModel.unpack =
      some (compare a.toInt b.toInt) := by
  rw [unpack_ofInt (natAbs_toInt_lt a), unpack_ofInt (natAbs_toInt_lt b), compare_unpacked]

theorem beq_ofInt (a b : Int32) : (Float.ofInt a.toInt == Float.ofInt b.toInt) = (a == b) := by
  show ((Float.ofInt a.toInt).toModel.unpack.compare (Float.ofInt b.toInt).toModel.unpack ==
    some .eq) = _
  rw [compare_ofInt, Bool.eq_iff_iff]
  simp [Int32.toInt_inj]

theorem lt_ofInt (a b : Int32) : (Float.ofInt a.toInt < Float.ofInt b.toInt) ↔ a < b := by
  show decide ((_ == some Ordering.lt) = true) = true ↔ _
  rw [compare_ofInt, decide_eq_true_iff]
  simp [Int.compare_eq_lt, Int32.lt_iff_toInt_lt]

theorem le_ofInt (a b : Int32) : (Float.ofInt a.toInt ≤ Float.ofInt b.toInt) ↔ a ≤ b := by
  show decide (Option.any Ordering.isLE _ = true) = true ↔ _
  rw [compare_ofInt, decide_eq_true_iff]
  simp [Int.isLE_compare, Int32.le_iff_toInt_le]

/-- **Integers compare as integers**, although they are compared as doubles. -/
theorem compareFloats_ofInt (op : Operator) (a b : Int32) :
    compareFloats op (Float.ofInt a.toInt) (Float.ofInt b.toInt) = compareIntegers op a b := by
  cases op <;>
    simp only [compareFloats, compareIntegers, bne, beq_ofInt, lt_ofInt, le_ofInt]

/-- whether a division has no integer for its answer -/
def Inexact (op : Operator) (a b : Int32) : Prop := op = .div ∧ (b = 0 ∨ a % b ≠ 0)

instance (op : Operator) (a b : Int32) : Decidable (Inexact op a b) :=
  inferInstanceAs (Decidable (_ ∧ _))

def word (b : Bool) : Int32 := if b then 1 else 0

/-- the word that an operator makes of two words -/
def combined (op : Operator) (a b : Int32) : Int32 :=
  match op with
  | .add => a + b
  | .sub => a - b
  | .mul => a * b
  | .div => a / b
  | .and => word (a != 0 && b != 0)
  | .or => word (a != 0 || b != 0)
  | op => word (compareIntegers op a b)

/-- an operator on two integers gives an integer, if it is not a division with a remainder -/
theorem apply_int {op : Operator} {a b : Int32} (h : ¬ Inexact op a b) :
    apply op (.int a) (.int b) = .ok (.int (combined op a b)) := by
  have hcompare : op.isComparison = true →
      comparison op (.int a) (.int b) = .ok (.int (word (compareIntegers op a b))) := by
    intro hop
    show (if op.isComparison = true then
      Except.ok (ofBool (compareFloats op (Float.ofInt a.toInt) (Float.ofInt b.toInt))) else _) = _
    rw [if_pos hop, compareFloats_ofInt]
    rfl
  cases op with
  | add | sub | mul => rfl
  | div =>
    have hb : b ≠ 0 ∧ a % b = 0 := by
      simpa [Inexact] using h
    show arithmetic .div (.int a) (.int b) = _
    unfold arithmetic integerArithmetic?
    simp only [if_pos hb]
    rfl
  | and | or => rfl
  | eq | ne | lt | gt | le | ge => exact hcompare rfl

theorem negate_int (n : Int32) : negate (.int n) = .ok (.int (word (n == 0))) := by
  show Except.ok (ofBool !(n != 0)) = _
  rw [bne, Bool.not_not]
  rfl

theorem condition_int (n : Int32) : condition (.int n) = .ok (n != 0) := rfl

end TinyScript.Value
