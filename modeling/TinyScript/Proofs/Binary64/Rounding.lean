import Mathlib.Algebra.Order.Field.Basic
import Mathlib.Algebra.Order.Field.Power
import Mathlib.Tactic.FieldSimp
import Mathlib.Tactic.Linarith
import TinyScript.Proofs.Binary64.Fields

/-!
# Rounding to a double

Arithmetic on doubles rounds the exact result to a nearest double.  While it shifts digits out of a mantissa
it keeps two bits for what is lost, and these decide to which side the result goes.

* `Describes`                 the numbers that a mantissa with two such bits stands for
* `Spacing`                   how far apart doubles are at a number
* `Rounds`                    a double that a number is rounded to
* `rounds_roundWithAccuracy`  what becomes of a mantissa and the bits of what is lost
-/

namespace TinyScript.Binary64

open Float.Model Float.Model.UnpackedFloat

/-! ### Digits that are shifted out -/

/-- The mantissa is the whole part of the number.  One bit says whether the rest is a half or more, and the
other whether something is left of it apart from the half. -/
def Describes : ExtendedMantissa → ℚ → Prop
  | ⟨m, false, false⟩, w => w = m
  | ⟨m, false, true⟩, w => m < w ∧ w < m + 1 / 2
  | ⟨m, true, false⟩, w => w = m + 1 / 2
  | ⟨m, true, true⟩, w => m + 1 / 2 < w ∧ w < m + 1

namespace Describes

variable {em : ExtendedMantissa} {w : ℚ}

theorem bounds (h : Describes em w) : em.mantissa ≤ w ∧ w < em.mantissa + 1 := by
  obtain ⟨m, round, sticky⟩ := em
  cases round <;> cases sticky <;> rw [Describes] at h <;> constructor <;> linarith

/-- One bit is shifted out, and what was left before is left below it. -/
theorem shiftRightOne (h : Describes em w) : Describes em.shiftRightOne (w / 2) := by
  obtain ⟨m, round, sticky⟩ := em
  have hm : (m : ℚ) = 2 * (m / 2 : Nat) + (m % 2 : Nat) := by
    exact_mod_cast (Nat.div_add_mod m 2).symm
  unfold ExtendedMantissa.shiftRightOne
  rcases Nat.mod_two_eq_zero_or_one m with hbit | hbit <;> rw [hbit] at hm ⊢ <;> push_cast at hm
  · show Describes ⟨m / 2, false, round || sticky⟩ _
    cases round <;> cases sticky <;> simp only [Bool.or_false, Bool.or_true, Describes] at h ⊢ <;>
      first | linarith | constructor <;> linarith
  · show Describes ⟨m / 2, true, round || sticky⟩ _
    cases round <;> cases sticky <;> simp only [Bool.or_false, Bool.or_true, Describes] at h ⊢ <;>
      first | linarith | constructor <;> linarith

theorem shiftRight (h : Describes em w) (k : Nat) : Describes (em >>> k) (w / 2 ^ k) := by
  show Describes (Nat.repeat ExtendedMantissa.shiftRightOne k em) _
  induction k with
  | zero => simpa [Nat.repeat] using h
  | succ k ih =>
    rw [Nat.repeat, pow_succ, ← div_div]
    exact ih.shiftRightOne

/-- The bits decide to which side the mantissa is rounded. -/
theorem nearest (h : Describes em w) : |w - em.roundedMantissa| ≤ 1 / 2 := by
  obtain ⟨m, round, sticky⟩ := em
  rw [abs_le]
  cases round <;> cases sticky <;> rw [Describes] at h <;>
    simp only [ExtendedMantissa.roundedMantissa, ExtendedMantissa.accuracy, Accuracy.roundToNearestEven]
  · constructor <;> linarith
  · constructor <;> linarith
  · -- a half goes to the even one of two neighbours
    rcases Nat.mod_two_eq_zero_or_one m with hbit | hbit <;> rw [hbit] <;> push_cast <;>
      constructor <;> linarith
  · push_cast
    constructor <;> linarith

end Describes

theorem describes_exact (m : Nat) : Describes (.ofMantissaAndAccuracy m .exact) m := rfl

/-- the accuracy of a quotient of natural numbers that is cut to a natural number -/
theorem describes_div {a b : Nat} (hb : 0 < b) :
    Describes (.ofMantissaAndAccuracy (a / b) (accuracyOfFraction (a % b) b)) (a / b) := by
  have hb' : (0 : ℚ) < b := by exact_mod_cast hb
  have ha : (a : ℚ) = b * (a / b : Nat) + (a % b : Nat) := by exact_mod_cast (Nat.div_add_mod a b).symm
  have hrest : ((a % b : Nat) : ℚ) < b := by exact_mod_cast Nat.mod_lt a hb
  unfold accuracyOfFraction
  split
  · next hzero =>
    rw [hzero] at ha
    rw [ExtendedMantissa.ofMantissaAndAccuracy, Describes, div_eq_iff hb'.ne', ha]
    push_cast
    ring
  · next hne =>
    have hpos : (0 : ℚ) < (a % b : Nat) := by exact_mod_cast Nat.pos_of_ne_zero hne
    rcases Nat.lt_trichotomy (2 * (a % b)) b with hlt | heq | hgt
    · have hhalf : 2 * ((a % b : Nat) : ℚ) < b := by exact_mod_cast hlt
      rw [Nat.compare_eq_lt.mpr hlt, ExtendedMantissa.ofMantissaAndAccuracy, Describes, lt_div_iff₀ hb',
        div_lt_iff₀ hb']
      constructor <;> nlinarith
    · have hhalf : 2 * ((a % b : Nat) : ℚ) = b := by exact_mod_cast heq
      rw [Nat.compare_eq_eq.mpr heq, ExtendedMantissa.ofMantissaAndAccuracy, Describes, div_eq_iff hb'.ne']
      linarith
    · have hhalf : (b : ℚ) < 2 * (a % b : Nat) := by exact_mod_cast hgt
      rw [Nat.compare_eq_gt.mpr hgt, ExtendedMantissa.ofMantissaAndAccuracy, Describes, lt_div_iff₀ hb',
        div_lt_iff₀ hb']
      constructor <;> nlinarith

/-! ### Nearest doubles -/

/-- The doubles around a number are multiples of `2 ^ t`: with 53 bits, or at the least exponent. -/
structure Spacing (y : ℚ) (t : ℤ) : Prop where
  least : -1074 ≤ t
  lt : |y| < 2 ^ (t + 53)
  leading : 2 ^ (t + 52) ≤ |y| ∨ t = -1074

/-- no multiple of the spacing is nearer to the number -/
structure Nearest (y : ℚ) (t n : ℤ) : Prop extends Spacing y t where
  error : |y - n * 2 ^ t| ≤ 2 ^ t / 2

/-- a double that the number is rounded to: a nearest one, or an infinity if that is out of range -/
def Rounds (y : ℚ) (b : Binary64) : Prop :=
  ∃ t n : ℤ, Nearest y t n ∧ (b.rational? = some ((n : ℚ) * 2 ^ t) ∨
    2 ^ 1024 ≤ |(n : ℚ) * 2 ^ t| ∧ ∃ negative, b = .infinite negative)

/-- a number that is a double, apart from the greatest exponent -/
def Representable (z : ℚ) : Prop := ∃ k j : ℤ, z = k * 2 ^ j ∧ |k| ≤ 2 ^ 53 ∧ -1074 ≤ j

theorem Representable.neg {z : ℚ} (h : Representable z) : Representable (-z) := by
  obtain ⟨k, j, rfl, hk, hj⟩ := h
  exact ⟨-k, j, by push_cast; ring, by rwa [abs_neg], hj⟩

theorem representable_int {n : ℤ} (h : |n| ≤ 2 ^ 53) : Representable n :=
  ⟨n, 0, by rw [zpow_zero, mul_one], h, by decide⟩

theorem zpow_eq_mul_pow {e t : ℤ} {k : Nat} (h : t = e + k) : (2 : ℚ) ^ t = 2 ^ e * 2 ^ k := by
  rw [h, zpow_add₀ two_ne_zero, zpow_natCast]

namespace Nearest

variable {y z : ℚ} {t n : ℤ}

theorem neg (h : Nearest y t n) : Nearest (-y) t (-n) := by
  have hy : |(-y)| = |y| := abs_neg y
  refine ⟨⟨h.least, hy ▸ h.lt, hy ▸ h.leading⟩, ?_⟩
  have hdistance : -y - ((-n : Int) : ℚ) * 2 ^ t = -(y - n * 2 ^ t) := by
    push_cast
    ring
  rw [hdistance, abs_neg]
  exact h.error

theorem le_of_multiple (h : Nearest y t n) {i : ℤ} (hy : y ≤ i * 2 ^ t) : n ≤ i := by
  have hpos : (0 : ℚ) < 2 ^ t := by positivity
  obtain ⟨herror, -⟩ := abs_le.mp h.error
  have hcast : (n : ℚ) < (i + 1 : Int) := by
    push_cast
    nlinarith
  exact Int.lt_add_one_iff.mp (by exact_mod_cast hcast)

/-- Rounding does not cross a double. -/
theorem le_of_representable (h : Nearest y t n) (hz : Representable z) (hy : y ≤ z) :
    n * 2 ^ t ≤ z := by
  obtain ⟨k, j, rfl, hk, hj⟩ := hz
  have hpos : (0 : ℚ) < 2 ^ t := by positivity
  rcases le_or_gt t j with htj | hjt
  · -- the double is one of the multiples
    have hmultiple : (k : ℚ) * 2 ^ j = ((k * 2 ^ (j - t).toNat : Int) : ℚ) * 2 ^ t := by
      have hexponent : (2 : ℚ) ^ j = 2 ^ t * 2 ^ (j - t).toNat := zpow_eq_mul_pow (by omega)
      rw [hexponent]
      push_cast
      ring
    rw [hmultiple] at hy ⊢
    have hle : (n : ℚ) ≤ (k * 2 ^ (j - t).toNat : Int) := by exact_mod_cast h.le_of_multiple hy
    gcongr
  · -- the double is smaller than the least number of 53 bits at this spacing
    have hlead := h.leading.resolve_right (by omega)
    have hsmall : |(k : ℚ) * 2 ^ j| ≤ 2 ^ (t + 52) := by
      have hk' : |(k : ℚ)| ≤ 2 ^ 53 := by exact_mod_cast hk
      rw [abs_mul, abs_of_pos (show (0 : ℚ) < 2 ^ j by positivity)]
      calc |(k : ℚ)| * 2 ^ j ≤ 2 ^ 53 * 2 ^ (t - 1) := by gcongr <;> [norm_num; omega]
        _ = 2 ^ (t + 52) := by
          rw [← zpow_ofNat, ← zpow_add₀ two_ne_zero]
          congr 1
          ring
    have hbit : (2 : ℚ) ^ (t + 52) = ((2 ^ 52 : Int) : ℚ) * 2 ^ t := by
      rw [zpow_add₀ two_ne_zero, zpow_ofNat, mul_comm]
      norm_num
    obtain ⟨hlo, hhi⟩ := abs_le.mp hsmall
    rcases le_or_gt 0 y with hy0 | hy0
    · rw [abs_of_nonneg hy0] at hlead
      have hle : (n : ℚ) ≤ (2 ^ 52 : Int) := by
        exact_mod_cast h.le_of_multiple (hbit ▸ (hy.trans hhi))
      calc (n : ℚ) * 2 ^ t ≤ (2 ^ 52 : Int) * 2 ^ t := by gcongr
        _ ≤ k * 2 ^ j := by rw [← hbit]; exact hlead.trans hy
    · rw [abs_of_neg hy0] at hlead
      have hle : (n : ℚ) ≤ (-2 ^ 52 : Int) := by
        refine Int.cast_le.mpr (h.le_of_multiple ?_)
        push_cast at hbit ⊢
        linarith
      calc (n : ℚ) * 2 ^ t ≤ (-2 ^ 52 : Int) * 2 ^ t := by gcongr
        _ = -2 ^ (t + 52) := by rw [hbit]; push_cast; ring
        _ ≤ k * 2 ^ j := hlo

end Nearest

namespace Rounds

variable {y z r : ℚ} {b : Binary64}

theorem nearest (h : Rounds y b) (hr : b.rational? = some r) :
    ∃ t n : ℤ, Nearest y t n ∧ r = n * 2 ^ t := by
  obtain ⟨t, n, hnearest, hb | ⟨-, negative, rfl⟩⟩ := h
  · exact ⟨t, n, hnearest, Option.some.inj (hr.symm.trans hb)⟩
  · cases hr

/-- Rounding does not go from one side of a double to the other. -/
theorem le_of_representable (h : Rounds y b) (hr : b.rational? = some r) (hz : Representable z)
    (hy : y ≤ z) : r ≤ z := by
  obtain ⟨t, n, hnearest, rfl⟩ := h.nearest hr
  exact hnearest.le_of_representable hz hy

theorem ge_of_representable (h : Rounds y b) (hr : b.rational? = some r) (hz : Representable z)
    (hy : z ≤ y) : z ≤ r := by
  obtain ⟨t, n, hnearest, rfl⟩ := h.nearest hr
  have hle := hnearest.neg.le_of_representable hz.neg (neg_le_neg hy)
  push_cast at hle
  linarith

theorem ne_nan (h : Rounds y b) : b ≠ .nan := by
  rintro rfl
  obtain ⟨t, n, -, hb | ⟨-, negative, hb⟩⟩ := h
  · cases hb
  · cases hb

theorem exists_rational (h : Rounds y b) (hy : |y| < 2 ^ 1023) : ∃ r, b.rational? = some r := by
  obtain ⟨t, n, hnearest, hb | ⟨hlarge, -⟩⟩ := h
  · exact ⟨_, hb⟩
  · -- what is rounded to an infinity is not less than half as large
    have herror := hnearest.error
    have htriangle : |(n : ℚ) * 2 ^ t| ≤ |y| + |y - n * 2 ^ t| := by
      have hsplit : (n : ℚ) * 2 ^ t = y - (y - n * 2 ^ t) := by ring
      calc |(n : ℚ) * 2 ^ t| = |y - (y - n * 2 ^ t)| := by rw [← hsplit]
        _ ≤ |y| + |y - n * 2 ^ t| := abs_sub _ _
    have hspacing : (2 : ℚ) ^ t ≤ 2 ^ 1023 := by
      rcases hnearest.leading with hlead | rfl
      · calc (2 : ℚ) ^ t ≤ 2 ^ (t + 52) := zpow_le_zpow_right₀ one_le_two (by omega)
          _ ≤ 2 ^ 1023 := hlead.trans hy.le
      · rw [← zpow_natCast]
        exact zpow_le_zpow_right₀ one_le_two (by norm_num)
    have hpos : (0 : ℚ) < 2 ^ 1023 := by positivity
    rw [pow_succ' (2 : ℚ) 1023] at hlarge
    generalize (2 : ℚ) ^ 1023 = limit at hy hlarge hspacing hpos
    linarith

/-- away from zero the error is at most one unit of the 53rd bit, halved -/
theorem error_le (h : Rounds y b) (hr : b.rational? = some r) (hy : 2 ^ (-1022 : ℤ) ≤ |y|) :
    |y - r| ≤ |y| / 2 ^ 53 := by
  obtain ⟨t, n, hnearest, rfl⟩ := h.nearest hr
  have hspacing : (2 : ℚ) ^ (t + 52) ≤ |y| := by
    rcases hnearest.leading with hlead | rfl
    · exact hlead
    · exact hy
  calc |y - n * 2 ^ t| ≤ 2 ^ t / 2 := hnearest.error
    _ = 2 ^ (t + 52) / 2 ^ 53 := by
      rw [zpow_add₀ two_ne_zero, zpow_ofNat, pow_succ (2 : ℚ) 52]
      field_simp
    _ ≤ |y| / 2 ^ 53 := by gcongr

end Rounds

/-! ### Signs -/

def unit : Sign → ℚ
  | .negative => -1
  | .positive => 1

theorem abs_unit_mul (s : Sign) (y : ℚ) : |unit s * y| = |y| := by
  cases s <;> simp [unit]

theorem cast_signed (s : Sign) (m : Nat) : ((signed (isNegative s) m : Int) : ℚ) = unit s * m := by
  cases s <;> simp [unit, isNegative, signed]

/-- A number in the form of a double is packed as itself, or as an infinity if it is out of range. -/
theorem pack_finite_value (s : Sign) {m : Nat} {e : Int} (h : 0 < m) (hc : Canonical m e) :
    (ofBits (UnpackedFloat.pack Format.binary64 (.finite s m e h)).toNat).rational? =
        some (unit s * (m * 2 ^ e)) ∨
      2 ^ 1024 ≤ |unit s * (m * 2 ^ e)| ∧
        ∃ negative, ofBits (UnpackedFloat.pack Format.binary64 (.finite s m e h)).toNat =
          .infinite negative := by
  rw [ofBits_pack_finite s h hc]
  split
  · rw [rational?, cast_signed, mul_assoc]
    exact .inl rfl
  · next hlarge =>
    refine .inr ⟨?_, _, rfl⟩
    have hleading : (2 : ℚ) ^ (52 : ℤ) ≤ m := by
      rw [zpow_ofNat]
      exact_mod_cast hc.leading.resolve_right (by omega)
    have hpower : (2 : ℚ) ^ (972 : ℤ) ≤ 2 ^ e := zpow_le_zpow_right₀ one_le_two (by omega)
    rw [abs_unit_mul, abs_of_nonneg (by positivity)]
    calc (2 : ℚ) ^ 1024 = 2 ^ (52 : ℤ) * 2 ^ (972 : ℤ) := by
          rw [← zpow_add₀ two_ne_zero]
          rfl
      _ ≤ m * 2 ^ e := by gcongr

/-! ### Rounding a mantissa -/

theorem targetExponent_eq_max (m : Nat) (e : Int) :
    Format.binary64.targetExponent (totalExponent m e) = max (m.log2 + e - 52) (-1074) := by
  have hbits : (Format.binary64.mantissaBits : Int) = 53 := rfl
  have hmin : Format.binary64.minExponent = -1074 := rfl
  rw [Format.targetExponent, totalExponent, hbits, hmin]
  omega

section

variable {m : Nat} {e t : Int} {accuracy : Accuracy} {w : ℚ}

/-- the mantissa at the exponent that it should have, if that is not below the one that it has -/
theorem shiftToTargetExponent_spec (hw : Describes (.ofMantissaAndAccuracy m accuracy) w)
    (ht : Format.binary64.targetExponent (totalExponent m e) = t) (he : e ≤ t) :
    ∃ em, shiftToTargetExponent Format.binary64 m e accuracy = (em, t) ∧
      Describes em (w * 2 ^ e / 2 ^ t) := by
  have hk : t = e + (t - e).toNat := by omega
  refine ⟨ExtendedMantissa.ofMantissaAndAccuracy m accuracy >>> (t - e).toNat, ?_, ?_⟩
  · simp only [shiftToTargetExponent, shiftToExponent, ht, ← hk]
  · have hexponent : w * 2 ^ e / 2 ^ t = w / 2 ^ (t - e).toNat := by
      rw [zpow_eq_mul_pow hk]
      field_simp
    rw [hexponent]
    exact hw.shiftRight _

/-- The exponent that a mantissa should have is the spacing of the doubles around its number. -/
theorem spacing_targetExponent (hw : Describes (.ofMantissaAndAccuracy m accuracy) w)
    (ht : Format.binary64.targetExponent (totalExponent m e) = t) (he : e ≤ t) :
    Spacing (w * 2 ^ e) t := by
  have hmantissa : (ExtendedMantissa.ofMantissaAndAccuracy m accuracy).mantissa = m := by
    unfold ExtendedMantissa.ofMantissaAndAccuracy
    split <;> rfl
  obtain ⟨hle, hlt⟩ := hw.bounds
  rw [hmantissa] at hle hlt
  rw [targetExponent_eq_max] at ht
  have hnonneg : 0 ≤ w := le_trans (Nat.cast_nonneg m) hle
  have hpos : (0 : ℚ) < 2 ^ e := by positivity
  refine ⟨by omega, ?_, ?_⟩
  · have hbits : (m : ℚ) + 1 ≤ 2 ^ (m.log2 + 1) := by exact_mod_cast Nat.lt_log2_self
    rw [abs_of_nonneg (by positivity)]
    calc w * 2 ^ e < 2 ^ (m.log2 + 1) * 2 ^ e := by gcongr; linarith
      _ = 2 ^ ((m.log2 + 1 : Nat) + e : Int) := by rw [zpow_add₀ two_ne_zero, zpow_natCast]
      _ ≤ 2 ^ (t + 53) := zpow_le_zpow_right₀ one_le_two (by omega)
  · rcases eq_or_ne t (-1074) with hleast | hleast
    · exact .inr hleast
    · have hm : m ≠ 0 := by
        rintro rfl
        rw [Nat.log2_zero] at ht
        omega
      have hbits : (2 : ℚ) ^ m.log2 ≤ m := by exact_mod_cast Nat.log2_self_le hm
      left
      rw [abs_of_nonneg (by positivity)]
      calc (2 : ℚ) ^ (t + 52) ≤ 2 ^ ((m.log2 : Int) + e) := zpow_le_zpow_right₀ one_le_two (by omega)
        _ = 2 ^ m.log2 * 2 ^ e := by rw [zpow_add₀ two_ne_zero, zpow_natCast]
        _ ≤ w * 2 ^ e := by gcongr; linarith

/-! A rounded mantissa has 53 bits, or it is the least number with 54. -/

theorem shiftToTargetExponent_of_lt (hm : m < 2 ^ 53) (ht : -1074 ≤ t) :
    shiftToTargetExponent Format.binary64 m t .exact = (⟨m, false, false⟩, t) := by
  have hlog : m.log2 < 53 := by
    rcases Nat.eq_zero_or_pos m with rfl | hpos
    · rw [Nat.log2_zero]
      decide
    · exact (Nat.log2_lt hpos.ne').mpr hm
  have hk : (max ((m.log2 : Int) + t - 52) (-1074) - t).toNat = 0 := by omega
  simp only [shiftToTargetExponent, shiftToExponent, targetExponent_eq_max, hk]
  exact congrArg (Prod.mk _) (Int.add_zero t)

theorem shiftToTargetExponent_carry (ht : -1074 ≤ t) :
    shiftToTargetExponent Format.binary64 (2 ^ 53) t .exact = (⟨2 ^ 52, false, false⟩, t + 1) := by
  have hk : (max (((2 ^ 53 : Nat).log2 : Int) + t - 52) (-1074) - t).toNat = 1 := by
    rw [Nat.log2_two_pow]
    omega
  simp only [shiftToTargetExponent, shiftToExponent, targetExponent_eq_max, hk]
  rfl

theorem pack_roundWithAccuracy_value (s : Sign) {em : ExtendedMantissa} {n m' : Nat} {t' : Int}
    (hfirst : shiftToTargetExponent Format.binary64 m e accuracy = (em, t))
    (hn : em.roundedMantissa = n)
    (hlast : shiftToTargetExponent Format.binary64 n t .exact = (⟨m', false, false⟩, t'))
    (hc : Canonical m' t') :
    (ofBits (UnpackedFloat.pack Format.binary64
        (roundWithAccuracy Format.binary64 s m e accuracy)).toNat).rational? =
        some (unit s * (m' * 2 ^ t')) ∨
      2 ^ 1024 ≤ |unit s * (m' * 2 ^ t')| ∧
        ∃ negative, ofBits (UnpackedFloat.pack Format.binary64
          (roundWithAccuracy Format.binary64 s m e accuracy)).toNat = .infinite negative := by
  unfold roundWithAccuracy
  rw [hfirst]
  dsimp only
  rw [hn, hlast]
  dsimp only
  by_cases hzero : m' = 0
  · rw [dif_pos hzero, ofBits_pack_zero, rational?, cast_signed, hzero]
    simp
  · rw [dif_neg hzero]
    exact pack_finite_value s (Nat.pos_of_ne_zero hzero) hc

/-- **Rounding a mantissa** gives a double that its number is rounded to. -/
theorem rounds_roundWithAccuracy (s : Sign)
    (hw : Describes (.ofMantissaAndAccuracy m accuracy) w)
    (he : e ≤ Format.binary64.targetExponent (totalExponent m e)) :
    Rounds (unit s * (w * 2 ^ e))
      (ofBits (UnpackedFloat.pack Format.binary64
        (roundWithAccuracy Format.binary64 s m e accuracy)).toNat) := by
  generalize ht : Format.binary64.targetExponent (totalExponent m e) = t at he
  obtain ⟨hleast, hlt, hleading⟩ := spacing_targetExponent hw ht he
  obtain ⟨em, hfirst, hdescribes⟩ := shiftToTargetExponent_spec hw ht he
  have hpos : (0 : ℚ) < 2 ^ t := by positivity
  have hnonneg : 0 ≤ w := le_trans (Nat.cast_nonneg _) hw.bounds.1
  have hvalue : |w * 2 ^ e| = w * 2 ^ e := abs_of_nonneg (by positivity)
  rw [hvalue] at hlt hleading
  have hnear := hdescribes.nearest
  obtain ⟨hlo, hhi⟩ := abs_le.mp hnear
  generalize hn : em.roundedMantissa = n at hnear hlo hhi
  have herror : |w * 2 ^ e - n * 2 ^ t| ≤ 2 ^ t / 2 := by
    have hsplit : w * 2 ^ e - n * 2 ^ t = (w * 2 ^ e / 2 ^ t - n) * 2 ^ t := by
      field_simp
    rw [hsplit, abs_mul, abs_of_pos hpos]
    calc |w * 2 ^ e / 2 ^ t - n| * (2 : ℚ) ^ t ≤ 1 / 2 * 2 ^ t := by gcongr
      _ = 2 ^ t / 2 := by ring
  have hupper : n ≤ 2 ^ 53 := by
    have hbound : w * 2 ^ e / 2 ^ t < 2 ^ 53 := by
      rw [zpow_add₀ two_ne_zero, zpow_ofNat, mul_comm (2 ^ t)] at hlt
      rwa [div_lt_iff₀ hpos]
    have hcast : (n : ℚ) < (2 ^ 53 + 1 : Nat) := by push_cast; linarith
    exact Nat.lt_succ_iff.mp (by exact_mod_cast hcast)
  have hlower : 2 ^ 52 ≤ n ∨ t = -1074 := by
    refine hleading.imp_left fun hle => ?_
    have hbound : 2 ^ 52 ≤ w * 2 ^ e / 2 ^ t := by
      rw [zpow_add₀ two_ne_zero, zpow_ofNat, mul_comm (2 ^ t)] at hle
      rwa [le_div_iff₀ hpos]
    have hcast : ((2 ^ 52 : Nat) : ℚ) < (n + 1 : Nat) := by push_cast; linarith
    exact Nat.lt_succ_iff.mp (by exact_mod_cast hcast)
  refine ⟨t, signed (isNegative s) n, ⟨⟨hleast, ?_, ?_⟩, ?_⟩, ?_⟩
  · rwa [abs_unit_mul, hvalue]
  · rwa [abs_unit_mul, hvalue]
  · rwa [cast_signed, mul_assoc, ← mul_sub, abs_unit_mul]
  · rw [cast_signed, mul_assoc]
    rcases Nat.lt_or_eq_of_le hupper with hsmall | rfl
    · exact pack_roundWithAccuracy_value s hfirst hn (shiftToTargetExponent_of_lt hsmall hleast)
        ⟨hsmall, hleast, hlower⟩
    · have hcarry : ((2 ^ 53 : Nat) : ℚ) * 2 ^ t = (2 ^ 52 : Nat) * 2 ^ (t + 1) := by
        rw [zpow_add_one₀ two_ne_zero]
        push_cast
        ring
      rw [hcarry]
      exact pack_roundWithAccuracy_value s hfirst hn (shiftToTargetExponent_carry hleast)
        ⟨by decide, by omega, .inl (Nat.le_refl _)⟩

end

/-! ### Doubles that need no rounding -/

theorem rounds_zero (s : Sign) : Rounds 0 (ofBits (UnpackedFloat.pack Format.binary64 (.zero s)).toNat) := by
  refine ⟨-1074, 0, ⟨⟨le_refl _, ?_, .inr rfl⟩, ?_⟩, .inl ?_⟩
  · rw [abs_zero]
    positivity
  · rw [Int.cast_zero, zero_mul, sub_zero, abs_zero]
    positivity
  · rw [ofBits_pack_zero, rational?]
    cases s <;> simp [isNegative, signed]

/-- a double is what it is rounded to itself -/
theorem rounds_finite (s : Sign) {m : Nat} {e : Int} (h : 0 < m) (hc : Canonical m e) :
    Rounds (unit s * (m * 2 ^ e))
      (ofBits (UnpackedFloat.pack Format.binary64 (.finite s m e h)).toNat) := by
  have hpos : (0 : ℚ) < 2 ^ e := by positivity
  have hvalue : |unit s * (m * (2 : ℚ) ^ e)| = m * 2 ^ e := by
    rw [abs_unit_mul, abs_of_nonneg (by positivity)]
  refine ⟨e, signed (isNegative s) m,
    ⟨⟨hc.le_exponent, ?_, hc.leading.imp_left fun hl => ?_⟩, ?_⟩, ?_⟩
  · have hm : (m : ℚ) < 2 ^ 53 := by exact_mod_cast hc.mantissa_lt
    rw [hvalue, zpow_add₀ two_ne_zero, zpow_ofNat, mul_comm (2 ^ e)]
    gcongr
  · have hm : (2 : ℚ) ^ 52 ≤ m := by exact_mod_cast hl
    rw [hvalue, zpow_add₀ two_ne_zero, zpow_ofNat, mul_comm (2 ^ e)]
    gcongr
  · rw [cast_signed, mul_assoc, sub_self, abs_zero]
    positivity
  · rw [cast_signed, mul_assoc]
    exact pack_finite_value s h hc

end TinyScript.Binary64
