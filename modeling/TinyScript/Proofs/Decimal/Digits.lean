import Mathlib.Algebra.Group.Nat.Defs
import TinyScript.Decimal.Integer

/-!
# Digits from the lowest to the highest

A number that is divided by ten again and again shows its digits from the lowest to the highest.

* `lowDigits n`            the digits in that order
* `toDigits_eq_reverse`    backwards they are how the number is written
* `integer_toUTF8`         the bytes of an integer in decimal
-/

namespace TinyScript.Decimal

def lowDigits (n : Nat) : List Nat := if n < 10 then [n] else n % 10 :: lowDigits (n / 10)
termination_by n
decreasing_by omega

theorem lowDigits_of_lt {n : Nat} (h : n < 10) : lowDigits n = [n] := by
  rw [lowDigits, if_pos h]

theorem lowDigits_of_le {n : Nat} (h : 10 ≤ n) : lowDigits n = n % 10 :: lowDigits (n / 10) := by
  rw [lowDigits, if_neg (Nat.not_lt.mpr h)]

theorem toDigits_eq_reverse (n : Nat) :
    Nat.toDigits 10 n = ((lowDigits n).map Nat.digitChar).reverse := by
  induction n using Nat.strongRecOn with
  | ind n ih =>
    rcases Nat.lt_or_ge n 10 with h | h
    · rw [lowDigits_of_lt h, Nat.toDigits_of_lt_base h]
      rfl
    · rw [lowDigits_of_le h, Nat.toDigits_of_base_le (by decide) h, ih (n / 10) (by omega),
        List.map_cons, List.reverse_cons]

theorem lt_ten_of_mem_lowDigits {n d : Nat} (h : d ∈ lowDigits n) : d < 10 := by
  induction n using Nat.strongRecOn with
  | ind n ih =>
    rcases Nat.lt_or_ge n 10 with hn | hn
    · rw [lowDigits_of_lt hn, List.mem_singleton] at h
      omega
    · rw [lowDigits_of_le hn, List.mem_cons] at h
      rcases h with rfl | h
      · omega
      · exact ih (n / 10) (by omega) h

theorem length_lowDigits_pos (n : Nat) : 0 < (lowDigits n).length := by
  rw [lowDigits]
  split <;> simp

theorem length_lowDigits_le {n k : Nat} (h : n < 10 ^ (k + 1)) :
    (lowDigits n).length ≤ k + 1 := by
  induction k generalizing n with
  | zero =>
    rw [lowDigits_of_lt (by omega)]
    exact Nat.le_refl _
  | succ k ih =>
    rcases Nat.lt_or_ge n 10 with hn | hn
    · rw [lowDigits_of_lt hn]
      exact Nat.succ_le_succ (Nat.zero_le _)
    · rw [lowDigits_of_le hn, List.length_cons]
      have hlt : n / 10 < 10 ^ (k + 1) := by
        rw [Nat.pow_succ] at h
        omega
      exact Nat.succ_le_succ (ih hlt)

/-! ### Bytes -/

def digitByte (d : Nat) : UInt8 := UInt8.ofNat (48 + d)

theorem utf8EncodeChar_digitChar {d : Nat} (h : d < 10) :
    String.utf8EncodeChar (Nat.digitChar d) = [digitByte d] := by
  revert d
  decide +kernel

theorem utf8Encode_digits {ds : List Nat} (h : ∀ d ∈ ds, d < 10) :
    (ds.map Nat.digitChar).utf8Encode = (ds.map digitByte).toByteArray := by
  induction ds with
  | nil => rfl
  | cons d ds ih =>
    rw [List.map_cons, List.utf8Encode_cons, List.utf8Encode_singleton,
      utf8EncodeChar_digitChar (h d List.mem_cons_self),
      ih fun x hx => h x (List.mem_cons_of_mem _ hx), List.map_cons, ← List.toByteArray_append]
    rfl

/-- the bytes of a natural number in decimal, the highest digit first -/
def digitBytes (n : Nat) : List UInt8 := ((lowDigits n).map digitByte).reverse

theorem utf8Encode_toDigits (n : Nat) :
    (Nat.toDigits 10 n).utf8Encode = (digitBytes n).toByteArray := by
  rw [toDigits_eq_reverse, digitBytes, ← List.map_reverse, ← List.map_reverse]
  exact utf8Encode_digits fun d hd => lt_ten_of_mem_lowDigits (List.mem_reverse.mp hd)

def bytes (n : Int) : List UInt8 :=
  if n < 0 then 45 :: digitBytes n.natAbs else digitBytes n.natAbs

theorem integer_toUTF8 (n : Int) : (integer n).toUTF8 = (bytes n).toByteArray := by
  show (String.ofList (integerDigits n)).toByteArray = _
  rw [String.toByteArray_ofList, integerDigits, bytes]
  split
  · rw [List.utf8Encode_cons, utf8Encode_toDigits, List.utf8Encode_singleton,
      ← List.toByteArray_append]
    rfl
  · exact utf8Encode_toDigits _

end TinyScript.Decimal
