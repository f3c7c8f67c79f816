import Mathlib.Data.Rat.Cast.Order
import Mathlib.Tactic.Ring
import TinyScript.Binary64

/-!
# The number that a double is

A finite double is a rational number, and the form that it is read in has only its bits.

* `Binary64.rational?`             the number, of a finite double
* `Binary64.whole?_eq_some_iff`    a double is whole if its number is an integer
* `Binary64.canonical_of_ofBits`   the form that a finite double is read in
* `Binary64.ofFloat_injective`     no two doubles are the same number, with its sign
-/

namespace TinyScript.Binary64

/-- the number that a finite double is -/
def rational? : Binary64 → Option ℚ
  | .finite negative mantissa exponent => some (signed negative mantissa * 2 ^ exponent)
  | _ => none

theorem divisor_pos (exponent : Int) : 0 < divisor exponent := by
  rw [divisor, Nat.one_shiftLeft]
  exact_mod_cast Nat.two_pow_pos _

theorem signed_mul (negative : Bool) (n k : Nat) :
    signed negative (n * k) = signed negative n * (k : Int) := by
  cases negative <;> simp [signed]

/-- the integers that a program divides have the quotient that the double is -/
theorem signed_div_divisor (negative : Bool) (mantissa : Nat) (exponent : Int) :
    ((signed negative (mantissa <<< exponent.toNat) : Int) : ℚ) / (divisor exponent : Int) =
      signed negative mantissa * 2 ^ exponent := by
  have hexponent : (2 : ℚ) ^ exponent = 2 ^ exponent.toNat / 2 ^ (-exponent).toNat := by
    rw [← zpow_natCast, ← zpow_natCast, ← zpow_sub₀ two_ne_zero]
    congr 1
    omega
  rw [hexponent, Nat.shiftLeft_eq, signed_mul, divisor, Nat.one_shiftLeft]
  push_cast
  ring

theorem whole?_eq_some_iff {b : Binary64} {n : Int} :
    b.whole? = some n ↔ b.rational? = some (n : ℚ) := by
  cases b with
  | finite negative mantissa exponent =>
    have hdivisor := divisor_pos exponent
    have hquotient : ((signed negative mantissa : Int) : ℚ) * 2 ^ exponent = n ↔
        signed negative (mantissa <<< exponent.toNat) = n * divisor exponent := by
      rw [← signed_div_divisor, div_eq_iff (by exact_mod_cast hdivisor.ne')]
      exact_mod_cast Iff.rfl
    rw [rational?, Option.some.injEq, hquotient, whole?]
    constructor
    · intro h
      split at h
      · next hmod =>
        rw [← Option.some.inj h]
        exact (Int.ediv_mul_cancel_of_emod_eq_zero hmod).symm
      · cases h
    · intro h
      rw [h, if_pos (Int.mul_emod_left _ _), Int.mul_ediv_cancel _ hdivisor.ne']
  | infinite _ | nan => simp [whole?, rational?]

/-! ### Bits -/

open Float.Model Float.Model.UnpackedFloat

theorem leadingBit_eq : leadingBit = 2 ^ 52 := by decide

/-- the bits that a number is read from -/
def bits : Binary64 → Nat
  | .finite negative mantissa exponent =>
    negative.toNat * 2 ^ 63 + ((exponent + 1074).toNat * 2 ^ 52 + mantissa)
  | .infinite negative => negative.toNat * 2 ^ 63 + 2047 * 2 ^ 52
  | .nan => 0

/-- the number with these fields -/
def ofFields (sign biased fraction : Nat) : Binary64 :=
  if biased = 2047 then
    if fraction = 0 then .infinite (sign == 1) else .nan
  else if biased = 0 then .finite (sign == 1) fraction (-1074)
  else .finite (sign == 1) (leadingBit + fraction) ((biased : Int) - 1075)

theorem ofBits_eq (n : Nat) :
    ofBits n = ofFields ((n >>> 63) % 2) ((n >>> 52) % 2048) (n % leadingBit) := rfl

/-- the forms that finite doubles are read in: the mantissa has its leading bit, or the exponent is the
least one -/
structure Canonical (mantissa : Nat) (exponent : Int) : Prop where
  mantissa_lt : mantissa < 2 ^ 53
  le_exponent : -1074 ≤ exponent
  leading : 2 ^ 52 ≤ mantissa ∨ exponent = -1074

theorem canonical_of_ofBits {n : Nat} {negative : Bool} {mantissa : Nat} {exponent : Int}
    (h : ofBits n = .finite negative mantissa exponent) : Canonical mantissa exponent := by
  have hfraction : n % leadingBit < 2 ^ 52 := Nat.mod_lt _ (by decide)
  have hbit := leadingBit_eq
  rw [ofBits_eq, ofFields] at h
  split at h
  · split at h
    · cases h
    · cases h
  · split at h
    · obtain ⟨-, rfl, rfl⟩ := finite.inj h
      exact ⟨by omega, by omega, .inr rfl⟩
    · obtain ⟨-, rfl, rfl⟩ := finite.inj h
      exact ⟨by omega, by omega, .inl (by omega)⟩

theorem bits_ofFields {sign biased fraction : Nat} (h : sign < 2)
    (hnan : ofFields sign biased fraction ≠ .nan) :
    (ofFields sign biased fraction).bits = sign * 2 ^ 63 + (biased * 2 ^ 52 + fraction) := by
  have hsign : (sign == 1).toNat = sign := by
    rcases Nat.lt_or_eq_of_le (Nat.le_of_lt_succ h) with h | rfl
    · obtain rfl : sign = 0 := by omega
      rfl
    · rfl
  unfold ofFields at hnan ⊢
  split
  · next hbiased =>
    rw [if_pos hbiased] at hnan
    split
    · next hzero => rw [bits, hsign, hbiased, hzero, Nat.add_zero]
    · next hne =>
      rw [if_neg hne] at hnan
      exact absurd rfl hnan
  · split
    · next hzero =>
      rw [bits, hsign, hzero]
      rfl
    · have hexponent : ((biased : Int) - 1075 + 1074).toNat = biased - 1 := by omega
      rw [bits, hsign, leadingBit_eq, hexponent]
      omega

theorem bits_ofBits {n : Nat} (h : n < 2 ^ 64) (hnan : ofBits n ≠ .nan) : (ofBits n).bits = n := by
  rw [ofBits_eq] at hnan ⊢
  rw [bits_ofFields (Nat.mod_lt _ (by decide)) hnan, Nat.shiftRight_eq_div_pow,
    Nat.shiftRight_eq_div_pow, leadingBit_eq]
  omega

theorem toBits_injective {x y : Float} (h : x.toBits = y.toBits) : x = y := by
  obtain ⟨⟨x, hx⟩⟩ := x
  obtain ⟨⟨y, hy⟩⟩ := y
  obtain rfl : x = y := h
  rfl

theorem toBits_of_nan {x : Float} (h : ofFloat x = .nan) : x.toBits.toBitVec = packedNaN Format.binary64 := by
  have hbits : x.toModel.toBits.toBitVec.toNat = x.toBits.toNat := rfl
  unfold ofFloat ofBits at h
  extract_lets negative biased fraction at h
  split at h
  · next hbiased =>
    split at h
    · cases h
    · next hfraction =>
      refine x.toModel.valid.eq_packedNaN ?_ fun hzero => hfraction ?_
      · apply BitVec.eq_of_toNat_eq
        show (x.toModel.toBits.toBitVec.extractLsb 62 52).toNat = 2047
        rw [BitVec.extractLsb_toNat, hbits]
        exact hbiased
      · have hm := congrArg BitVec.toNat hzero
        replace hm : (x.toModel.toBits.toBitVec.extractLsb 51 0).toNat = 0 := hm
        rw [BitVec.extractLsb_toNat, hbits, Nat.shiftRight_zero] at hm
        exact hm
  · split at h
    · cases h
    · cases h

theorem ofFloat_injective {x y : Float} (h : ofFloat x = ofFloat y) : x = y := by
  by_cases hnan : ofFloat x = .nan
  · have hbits := (toBits_of_nan hnan).trans (toBits_of_nan (h ▸ hnan)).symm
    exact toBits_injective (UInt64.toBitVec_inj.mp hbits)
  · have hx := bits_ofBits x.toBits.toNat_lt hnan
    have hy := bits_ofBits y.toBits.toNat_lt (show ofFloat y ≠ .nan from h ▸ hnan)
    have hbits : (ofFloat x).bits = (ofFloat y).bits := congrArg bits h
    exact toBits_injective (UInt64.toNat_inj.mp (hx.symm.trans (hbits.trans hy)))

end TinyScript.Binary64
