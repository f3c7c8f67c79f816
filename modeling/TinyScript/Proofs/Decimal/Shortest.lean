import Mathlib.Algebra.Group.Nat.Defs
import TinyScript.Decimal.Shortest

/-!
# The shortest decimal is positive

* `Decimal.Target.Positive`            an interval of positive numbers
* `Decimal.Target.Positive.unit_le_value`   with some digits the value is at least one unit of the last one
* `Decimal.shortest_coefficient_pos`   the shortest decimal of a positive double is not zero
-/

namespace TinyScript.Decimal

/-! ### The number of digits -/

theorem lt_pow_length (n : Nat) : n < 10 ^ (Nat.toDigits 10 n).length :=
  (Nat.length_toDigits_le_iff (by decide) Nat.length_toDigits_pos).mp (Nat.le_refl _)

theorem pow_length_le {n : Nat} (h : 0 < n) : 10 ^ ((Nat.toDigits 10 n).length - 1) ≤ n := by
  rcases Nat.eq_zero_or_pos ((Nat.toDigits 10 n).length - 1) with hzero | hpos
  · rw [hzero]
    exact h
  · refine Nat.le_of_not_lt fun hlt => ?_
    have hlength := (Nat.length_toDigits_le_iff (b := 10) (by decide) hpos).mpr hlt
    omega

/-! ### The shortest decimal of a positive double is positive -/

namespace Target

/-- an interval of positive numbers with the value inside -/
structure Positive (t : Target) : Prop where
  low : 0 < t.low
  low_le : t.low ≤ t.value
  denominator : 0 < t.denominator

theorem positive_ofBinary {mantissa : Nat} (h : 0 < mantissa) (exponent : Int) :
    (ofBinary mantissa exponent).Positive := by
  have hpow (n : Nat) : 0 < 1 <<< n := by
    rw [Nat.one_shiftLeft]
    exact Nat.two_pow_pos n
  have hbelow : (if mantissa = Binary64.leadingBit ∧ -1074 < exponent then 1 else 2) ≤ 2 := by
    split <;> omega
  exact ⟨Nat.mul_pos (by omega) (hpow _), Nat.mul_le_mul_right _ (Nat.sub_le _ _), hpow _⟩

namespace Positive

variable {t : Target}

theorem inUnits (h : t.Positive) (grid : Int) : (t.inUnits grid).Positive where
  low := Nat.mul_pos h.low (Nat.pow_pos (by decide))
  low_le := Nat.mul_le_mul_right _ h.low_le
  denominator := Nat.mul_pos h.denominator (Nat.pow_pos (by decide))

/-- Zero does not lie in the interval, so no candidate is zero. -/
theorem integer?_pos (h : t.Positive) {tie : Tie} {c : Nat} (hc : t.integer? tie = some c) :
    0 < c := by
  unfold integer? at hc
  extract_lets below above lowHit highHit at hc
  have habove : 0 < above := Nat.succ_pos below
  have hbelow : lowHit → 0 < below := by
    intro hit
    rcases Nat.eq_zero_or_pos below with hzero | hpos
    · have hlow := h.low
      simp only [lowHit, hzero, Nat.zero_mul] at hit
      split at hit <;> omega
    · exact hpos
  split at hc
  · next hit =>
    have hb := hbelow hit
    split at hc
    · split at hc
      · exact Option.some.inj hc ▸ hb
      · exact Option.some.inj hc ▸ habove
      · split at hc
        · exact Option.some.inj hc ▸ habove
        · rw [← Option.some.inj hc]
          split
          · exact hb
          · exact habove
    · exact Option.some.inj hc ▸ hb
  · split at hc
    · exact Option.some.inj hc ▸ habove
    · cases hc

/-- With `n` digits the value is at least one unit of the last digit. -/
theorem unit_le_value (h : t.Positive) {n : Nat} (hn : 0 < n) :
    (t.inUnits (t.point - n)).denominator ≤ (t.inUnits (t.point - n)).value := by
  have hvalue : 0 < t.value := Nat.lt_of_lt_of_le h.low h.low_le
  show t.denominator * 10 ^ (t.point - n).toNat ≤ t.value * 10 ^ (-(t.point - n)).toNat
  unfold point
  split
  · next hle =>
    -- the unit is at most the first digit of the whole part
    have hquotient : 0 < t.value / t.denominator := Nat.div_pos hle h.denominator
    calc t.denominator * 10 ^ (((Nat.toDigits 10 (t.value / t.denominator)).length : Int) - n).toNat
        ≤ t.denominator * 10 ^ ((Nat.toDigits 10 (t.value / t.denominator)).length - 1) :=
          Nat.mul_le_mul_left _ (Nat.pow_le_pow_right (by decide) (by omega))
      _ ≤ t.denominator * (t.value / t.denominator) :=
          Nat.mul_le_mul_left _ (pow_length_le hquotient)
      _ ≤ t.value := Nat.mul_div_le _ _
      _ ≤ t.value * 10 ^ (-(((Nat.toDigits 10 (t.value / t.denominator)).length : Int) - n)).toNat :=
          Nat.le_mul_of_pos_right _ (Nat.pow_pos (by decide))
  · next hlt =>
    -- the unit is below one, by at least as many digits as the inverse of the value has
    have hinverse := lt_pow_length (t.denominator / t.value)
    have hgrid : (1 - ((Nat.toDigits 10 (t.denominator / t.value)).length : Int) - n).toNat = 0 := by
      omega
    rw [hgrid, Nat.pow_zero, Nat.mul_one]
    calc t.denominator
        ≤ t.value * (t.denominator / t.value + 1) :=
          Nat.le_of_lt (Nat.lt_mul_div_succ _ hvalue)
      _ ≤ t.value * 10 ^ (Nat.toDigits 10 (t.denominator / t.value)).length :=
          Nat.mul_le_mul_left _ hinverse
      _ ≤ t.value *
            10 ^ (-(1 - ((Nat.toDigits 10 (t.denominator / t.value)).length : Int) - n)).toNat :=
          Nat.mul_le_mul_left _ (Nat.pow_le_pow_right (by decide) (by omega))

theorem search_pos (h : t.Positive) (tie : Tie) (tries : Nat) {n : Nat} (hn : 0 < n) :
    0 < (t.search tie tries n).coefficient := by
  induction tries generalizing n with
  | zero =>
    exact Nat.div_pos (h.unit_le_value hn) (h.inUnits _).denominator
  | succ tries ih =>
    rw [search]
    split
    · next c hc => exact (h.inUnits _).integer?_pos hc
    · exact ih (Nat.succ_pos n)

end Positive

end Target

theorem Scientific.trim_pos (n : Nat) {d : Scientific} (h : 0 < d.coefficient) :
    0 < (d.trim n).coefficient := by
  induction n generalizing d with
  | zero => exact h
  | succ n ih =>
    rw [trim]
    split
    · next hmod => exact ih (show 0 < d.coefficient / 10 by omega)
    · exact h

theorem shortest_coefficient_pos (tie : Tie) {mantissa : Nat} (h : 0 < mantissa) (exponent : Int) :
    0 < (shortest tie mantissa exponent).coefficient :=
  Scientific.trim_pos 17 ((Target.positive_ofBinary h exponent).search_pos tie 17 Nat.one_pos)

end TinyScript.Decimal
