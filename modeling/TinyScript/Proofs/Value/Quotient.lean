import TinyScript.Proofs.Binary64.Arithmetic
import TinyScript.Proofs.Value.Integer

/-!
# Quotients of integers

Two integers whose quotient is no integer are divided as doubles.  The quotient of two numbers of 32 bits is
so far from the next integer that rounding it never gives one.

* `Value.Divides`              one word divides another
* `rational?_ofInt`            an integer of 53 bits is a double
* `divides_of_whole`           if the rounded quotient is an integer, the divisor divides
* `apply_div_of_divides`, `apply_div_of_not_divides`   the two cases of a division
-/

namespace TinyScript.Value

open Binary64 Float.Model Float.Model.UnpackedFloat

/-- a word other than zero of which the other one is a multiple -/
def Divides (b a : Int32) : Prop := b ≠ 0 ∧ b.toInt ∣ a.toInt

instance (b a : Int32) : Decidable (Divides b a) := inferInstanceAs (Decidable (_ ∧ _))

theorem divides_iff {a b : Int32} : Divides b a ↔ b ≠ 0 ∧ a % b = 0 := by
  have hzero : a % b = 0 ↔ (a % b).toInt = 0 := by
    rw [← Int32.toInt_inj]
    rfl
  rw [Divides, hzero, Int32.toInt_mod, Int.dvd_iff_tmod_eq_zero]

theorem not_inexact_iff_divides {a b : Int32} : ¬ Inexact .div a b ↔ Divides b a := by
  rw [divides_iff]
  simp [Inexact]

/-! ### Integers as doubles -/

theorem rational?_ofInt {n : Int} (h : n.natAbs < 2 ^ 53) :
    (ofFloat (Float.ofInt n)).rational? = some (n : ℚ) := by
  have hfinite (s : Sign) {k : Nat} (hk : 0 < k) (hlt : k < 2 ^ 53) :
      (ofUnpacked (Whole.finite s k hk)).rational? = some (unit s * k) := by
    have hlog := Whole.log2_le hk hlt
    have hpower : (2 : ℚ) ^ (52 - k.log2) * 2 ^ ((k.log2 : Int) - 52) = 1 := by
      rw [← zpow_natCast, ← zpow_add₀ two_ne_zero]
      have hsum : ((52 - k.log2 : Nat) : Int) + (k.log2 - 52) = 0 := by omega
      rw [hsum, zpow_zero]
    rw [Whole.finite, ofUnpacked_finite, rational?, cast_signed, Whole.mantissa]
    push_cast
    rw [mul_assoc, mul_assoc, hpower, mul_one]
  rw [ofFloat_eq_ofUnpacked, Whole.unpack_ofInt h]
  cases n with
  | ofNat k =>
    cases k with
    | zero => simp [Whole.unpacked, ofUnpacked_zero, rational?, isNegative, signed]
    | succ k =>
      rw [Whole.unpacked, hfinite .positive k.succ_pos h]
      simp [unit]
  | negSucc k =>
    rw [Whole.unpacked, hfinite .negative k.succ_pos h]
    simp [unit, Int.negSucc_eq]

theorem rational?_ofInt_toInt (a : Int32) :
    (ofFloat (Float.ofInt a.toInt)).rational? = some (a.toInt : ℚ) :=
  rational?_ofInt (natAbs_toInt_lt a)

/-! ### The quotient is an integer -/

/-- a quotient is at least as far from an integer as the divisor allows -/
theorem dvd_of_near {a b k : Int} (hb : b ≠ 0) (h : |(a : ℚ) / b - k| * |(b : ℚ)| < 1) : b ∣ a := by
  have hb' : (b : ℚ) ≠ 0 := by exact_mod_cast hb
  have hdifference : |((a - k * b : Int) : ℚ)| < 1 := by
    rw [← abs_mul, sub_mul, div_mul_cancel₀ _ hb'] at h
    push_cast
    exact h
  have hzero : a - k * b = 0 := Int.abs_lt_one_iff.mp (by exact_mod_cast hdifference)
  exact ⟨k, by linarith⟩

theorem divides_of_whole {a b : Int32} (hb : b ≠ 0) {k : Int}
    (h : (ofFloat (Float.ofInt a.toInt / Float.ofInt b.toInt)).rational? = some (k : ℚ)) :
    b.toInt ∣ a.toInt := by
  have hb0 : b.toInt ≠ 0 := fun he => hb (Int32.toInt_inj.mp he)
  by_cases ha0 : a.toInt = 0
  · rw [ha0]
    exact dvd_zero _
  have hb1 : (0 : ℚ) < |(b.toInt : ℚ)| := abs_pos.mpr (by exact_mod_cast hb0)
  have ha1 : (1 : ℚ) ≤ |(a.toInt : ℚ)| := by exact_mod_cast Int.one_le_abs ha0
  have ha2 : |(a.toInt : ℚ)| ≤ 2 ^ 31 := by
    have hle : |a.toInt| ≤ 2 ^ 31 := abs_le.mpr ⟨a.le_toInt, by have := a.toInt_lt; omega⟩
    exact_mod_cast hle
  have hb2 : |(b.toInt : ℚ)| ≤ 2 ^ 31 := by
    have hle : |b.toInt| ≤ 2 ^ 31 := abs_le.mpr ⟨b.le_toInt, by have := b.toInt_lt; omega⟩
    exact_mod_cast hle
  have hrounds := rounds_div (rational?_ofInt_toInt a) (rational?_ofInt_toInt b)
    (by exact_mod_cast hb0)
  have hlarge : (2 : ℚ) ^ (-1022 : ℤ) ≤ |(a.toInt : ℚ) / b.toInt| := by
    rw [abs_div, le_div_iff₀ hb1]
    calc (2 : ℚ) ^ (-1022 : ℤ) * |(b.toInt : ℚ)| ≤ 2 ^ (-31 : ℤ) * 2 ^ 31 := by
          gcongr
          · norm_num
          · norm_num
      _ = 1 := by norm_num
      _ ≤ |(a.toInt : ℚ)| := ha1
  refine dvd_of_near hb0 (k := k) ?_
  calc |(a.toInt : ℚ) / b.toInt - k| * |(b.toInt : ℚ)|
      ≤ |(a.toInt : ℚ) / b.toInt| / 2 ^ 53 * |(b.toInt : ℚ)| := by
        gcongr
        exact hrounds.error_le h hlarge
    _ = |(a.toInt : ℚ)| / 2 ^ 53 := by
        rw [abs_div]
        field_simp
    _ < 1 := by
        rw [div_lt_one (by positivity)]
        linarith

/-- a quotient by zero is an infinity, or no number at all -/
theorem rational?_div_zero (a : Int32) :
    (ofFloat (Float.ofInt a.toInt / Float.ofInt (0 : Int32).toInt)).rational? = none := by
  have hquotient (u : UnpackedFloat) (hu : u = .notANumber ∨ ∃ s, u = .infinity s) :
      (ofBits (UnpackedFloat.pack Format.binary64 u).toNat).rational? = none := by
    rcases hu with rfl | ⟨s, rfl⟩
    · decide +kernel
    · cases s <;> decide +kernel
  have hzero : (Float.ofInt (0 : Int32).toInt).toModel.unpack = .zero .positive :=
    Whole.unpack_ofInt (by decide)
  refine hquotient (UnpackedFloat.div Format.binary64 (Float.ofInt a.toInt).toModel.unpack
    (Float.ofInt (0 : Int32).toInt).toModel.unpack) ?_
  rw [hzero, Whole.unpack_ofInt (natAbs_toInt_lt a)]
  match a.toInt with
  | .ofNat 0 => exact .inl rfl
  | .ofNat (k + 1) => exact .inr ⟨_, rfl⟩
  | .negSucc k => exact .inr ⟨_, rfl⟩

/-! ### Division -/

theorem apply_div_of_divides {a b : Int32} (h : Divides b a) :
    apply .div (.int a) (.int b) = .ok (.int (a / b)) :=
  apply_int (not_inexact_iff_divides.mpr h)

/-- **A quotient that is no integer is a double**, and never one that counts as an integer. -/
theorem apply_div_of_not_divides {a b : Int32} (h : ¬ Divides b a) :
    apply .div (.int a) (.int b) = .ok (.float (Float.ofInt a.toInt / Float.ofInt b.toInt)) := by
  have hfast : integerArithmetic? .div a b = none := if_neg (mt divides_iff.mpr h)
  have hwhole : (ofFloat (Float.ofInt a.toInt / Float.ofInt b.toInt)).whole? = none := by
    rw [Option.eq_none_iff_forall_ne_some]
    intro k hk
    rw [whole?_eq_some_iff] at hk
    by_cases hb : b = 0
    · rw [hb, rational?_div_zero] at hk
      cases hk
    · exact h ⟨hb, divides_of_whole hb hk⟩
  show arithmetic .div (.int a) (.int b) = _
  unfold arithmetic
  simp only [hfast, toFloat?, floatArithmetic]
  rw [demote, hwhole]

/-- the integer quotient, which wraps around for the least number and minus one -/
theorem toInt_div_of_divides {a b : Int32} (h : Divides b a) :
    (a / b).toInt = (a.toInt / b.toInt).bmod (2 ^ 32) := by
  rw [Int32.toInt_div, Int.tdiv_eq_ediv_of_dvd h.2]

end TinyScript.Value
