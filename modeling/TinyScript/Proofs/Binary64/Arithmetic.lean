import TinyScript.Proofs.Value.Whole

/-!
# Sums and quotients of doubles

* `rounds_add`, `rounds_div`   the exact result is rounded
-/

namespace TinyScript.Binary64

open Float.Model Float.Model.UnpackedFloat

/-! ### Sums -/

theorem log2_shiftLeft {m : Nat} (hm : 0 < m) (k : Nat) : (m <<< k).log2 = m.log2 + k := by
  rw [Nat.shiftLeft_eq]
  exact Whole.log2_mul_two_pow hm k

theorem rounds_round (s : Sign) {m : Nat} (hm : 0 < m) (e : Int) :
    Rounds (unit s * (m * 2 ^ e))
      (ofBits (UnpackedFloat.pack Format.binary64
        (UnpackedFloat.round Format.binary64 s m e)).toNat) := by
  unfold UnpackedFloat.round decreaseExponent
  dsimp only
  rw [targetExponent_eq_max]
  generalize hk : (e - max (m.log2 + e - 52) (-1074)).toNat = k
  have hvalue : (m : ℚ) * 2 ^ e = ((m <<< k : Nat) : ℚ) * 2 ^ (e - k) := by
    have hexponent : (2 : ℚ) ^ e = 2 ^ (e - k) * 2 ^ k := zpow_eq_mul_pow (by omega)
    rw [hexponent, Nat.shiftLeft_eq]
    push_cast
    ring
  rw [hvalue]
  refine rounds_roundWithAccuracy s (describes_exact (m <<< k)) ?_
  rw [targetExponent_eq_max, log2_shiftLeft hm]
  omega

theorem rounds_normalize (n e : Int) (s : Sign) :
    Rounds (n * 2 ^ e)
      (ofBits (UnpackedFloat.pack Format.binary64 (UnpackedFloat.normalize Format.binary64 n e s)).toNat) := by
  unfold UnpackedFloat.normalize
  rcases lt_trichotomy n 0 with hneg | rfl | hpos
  · rw [Int.compare_eq_lt.mpr hneg]
    have hvalue : (n : ℚ) * 2 ^ e = unit .negative * ((-n).toNat * 2 ^ e) := by
      have hcast : (((-n).toNat : Nat) : ℚ) = -n := by
        exact_mod_cast Int.toNat_of_nonneg (by omega)
      rw [unit, hcast]
      ring
    rw [hvalue]
    exact rounds_round .negative (by omega) e
  · rw [Int.compare_eq_eq.mpr rfl, Int.cast_zero, zero_mul]
    exact rounds_zero s
  · rw [Int.compare_eq_gt.mpr hpos]
    have hvalue : (n : ℚ) * 2 ^ e = unit .positive * (n.toNat * 2 ^ e) := by
      have hcast : ((n.toNat : Nat) : ℚ) = n := by
        exact_mod_cast Int.toNat_of_nonneg hpos.le
      rw [unit, hcast, one_mul]
    rw [hvalue]
    exact rounds_round .positive (by omega) e

/-- what a finite double is unpacked to -/
theorem unpack_of_rational? {x : Float} {X : ℚ} (h : (ofFloat x).rational? = some X) :
    (∃ s, x.toModel.unpack = .zero s ∧ X = 0) ∨
      ∃ s m e hm, x.toModel.unpack = .finite s m e hm ∧ Canonical m e ∧ X = unit s * (m * 2 ^ e) := by
  rw [ofFloat_eq_ofUnpacked] at h
  cases hu : x.toModel.unpack with
  | zero s =>
    rw [hu] at h
    refine .inl ⟨s, rfl, ?_⟩
    rw [← Option.some.inj h]
    cases s <;> simp [isNegative, signed]
  | finite s m e hm =>
    have hx : ofFloat x = .finite (isNegative s) m e := by rw [ofFloat_eq_ofUnpacked, hu, ofUnpacked_finite]
    rw [hu] at h
    refine .inr ⟨s, m, e, hm, rfl, canonical_of_ofBits hx, ?_⟩
    rw [← Option.some.inj h, cast_signed, mul_assoc]
  | infinity s =>
    rw [hu] at h
    cases h
  | notANumber =>
    rw [hu] at h
    cases h

/-- **A sum of doubles is the sum of their numbers, rounded.** -/
theorem rounds_add {x y : Float} {X Y : ℚ} (hx : (ofFloat x).rational? = some X)
    (hy : (ofFloat y).rational? = some Y) : Rounds (X + Y) (ofFloat (x + y)) := by
  show Rounds _ (ofBits (UnpackedFloat.pack Format.binary64
    (UnpackedFloat.add Format.binary64 x.toModel.unpack y.toModel.unpack)).toNat)
  rcases unpack_of_rational? hx with ⟨s, hu, rfl⟩ | ⟨s, m, e, hm, hu, hc, rfl⟩ <;>
    rcases unpack_of_rational? hy with ⟨s', hu', rfl⟩ | ⟨s', m', e', hm', hu', hc', rfl⟩ <;>
    rw [hu, hu']
  · rw [add_zero]
    show Rounds 0 (ofBits (UnpackedFloat.pack Format.binary64 (ite _ _ _)).toNat)
    split
    · exact rounds_zero _
    · exact rounds_zero _
  · rw [zero_add]
    exact rounds_finite s' hm' hc'
  · rw [add_zero]
    exact rounds_finite s hm hc
  · -- both mantissas are brought to the lower of the two exponents
    let k := (e - min e e').toNat
    let k' := (e' - min e e').toNat
    have hvalue : unit s * (m * 2 ^ e) + unit s' * (m' * 2 ^ e') =
        ((s.apply (m <<< k : Nat) + s'.apply (m' <<< k' : Nat) : Int) : ℚ) * 2 ^ min e e' := by
      have hexponent : (2 : ℚ) ^ e = 2 ^ min e e' * 2 ^ k := zpow_eq_mul_pow (by omega)
      have hexponent' : (2 : ℚ) ^ e' = 2 ^ min e e' * 2 ^ k' := zpow_eq_mul_pow (by omega)
      rw [Int.cast_add, apply_eq_signed, apply_eq_signed, cast_signed, cast_signed, hexponent, hexponent',
        Nat.shiftLeft_eq, Nat.shiftLeft_eq]
      push_cast
      ring
    rw [hvalue]
    exact rounds_normalize _ _ .positive

/-! ### Quotients -/

theorem log2_le_log2_div {a b : Nat} (ha : 0 < a) (hb : 0 < b) : a.log2 ≤ b.log2 + (a / b).log2 + 1 := by
  have hlt : a < 2 ^ (b.log2 + 1 + ((a / b).log2 + 1)) := by
    calc a < b * (a / b + 1) := Nat.lt_mul_div_succ a hb
      _ ≤ 2 ^ (b.log2 + 1) * 2 ^ ((a / b).log2 + 1) :=
          Nat.mul_le_mul (Nat.le_of_lt Nat.lt_log2_self) Nat.lt_log2_self
      _ = 2 ^ (b.log2 + 1 + ((a / b).log2 + 1)) := (Nat.pow_add ..).symm
  have hlog := (Nat.log2_lt ha.ne').mpr hlt
  omega

theorem unit_div (s s' : Sign) : unit (s / s') = unit s / unit s' := by
  cases s <;> cases s' <;> norm_num [unit, show (Sign.negative / Sign.negative) = .positive from rfl,
    show (Sign.negative / Sign.positive) = .negative from rfl,
    show (Sign.positive / Sign.negative) = .negative from rfl,
    show (Sign.positive / Sign.positive) = .positive from rfl]

/-- **A quotient of doubles is the quotient of their numbers, rounded.** -/
theorem rounds_div {x y : Float} {X Y : ℚ} (hx : (ofFloat x).rational? = some X)
    (hy : (ofFloat y).rational? = some Y) (hne : Y ≠ 0) : Rounds (X / Y) (ofFloat (x / y)) := by
  show Rounds _ (ofBits (UnpackedFloat.pack Format.binary64
    (UnpackedFloat.div Format.binary64 x.toModel.unpack y.toModel.unpack)).toNat)
  rcases unpack_of_rational? hy with ⟨s', -, rfl⟩ | ⟨s', m', e', hm', hu', -, rfl⟩
  · exact absurd rfl hne
  rcases unpack_of_rational? hx with ⟨s, hu, rfl⟩ | ⟨s, m, e, hm, hu, -, rfl⟩ <;> rw [hu, hu']
  · rw [zero_div]
    exact rounds_zero (s / s')
  · -- the exponent is low enough for the quotient of the mantissas to have all the bits it needs
    obtain ⟨t, ht⟩ : ∃ t, t = min (e - e')
      (Format.binary64.targetExponent (totalExponent m e - totalExponent m' e')) := ⟨_, rfl⟩
    obtain ⟨k, hk⟩ : ∃ k, k = (e - e' - t).toNat := ⟨_, rfl⟩
    have hquotient : UnpackedFloat.div Format.binary64 (.finite s m e hm) (.finite s' m' e' hm') =
        roundWithAccuracy Format.binary64 (s / s') (m <<< k / m') t
          (accuracyOfFraction (m <<< k % m') m') := by
      rw [hk, ht]
      rfl
    have hvalue : unit s * (m * 2 ^ e) / (unit s' * (m' * 2 ^ e')) =
        unit (s / s') * (((m <<< k : Nat) : ℚ) / m' * 2 ^ t) := by
      have hexponent : (2 : ℚ) ^ e = 2 ^ e' * 2 ^ (e - e') := by
        rw [← zpow_add₀ two_ne_zero]
        congr 1
        omega
      have hshift : (2 : ℚ) ^ (e - e') = 2 ^ t * 2 ^ k := zpow_eq_mul_pow (by omega)
      have hm'' : (m' : ℚ) ≠ 0 := by exact_mod_cast hm'.ne'
      have hs' : unit s' ≠ 0 := by cases s' <;> norm_num [unit]
      rw [unit_div, hexponent, hshift, Nat.shiftLeft_eq]
      push_cast
      field_simp
    rw [hquotient, hvalue]
    refine rounds_roundWithAccuracy (s / s') (describes_div hm') ?_
    have hlog := log2_le_log2_div (a := m <<< k) (by rw [Nat.shiftLeft_eq]; positivity) hm'
    have hbound : t ≤ max (totalExponent m e - totalExponent m' e' - 53) (-1074) :=
      ht ▸ Int.min_le_right ..
    rw [log2_shiftLeft hm] at hlog
    simp only [totalExponent] at hbound
    rw [targetExponent_eq_max]
    omega

end TinyScript.Binary64
