import TinyScript.Proofs.Binary64.Rounding
import TinyScript.Value.Apply

/-!
# Whole numbers as doubles

Operators compare two integers by comparing the doubles that have their values.  A whole number with
at most 53 bits is a double without any rounding, so nothing is lost by that.

* `Whole.unpacked n`        the sign, mantissa and exponent of a whole number
* `Whole.unpack_ofInt`      they are what the double of the number consists of
* `Whole.compare_unpacked`  the doubles are in the same order as the numbers
-/

namespace TinyScript.Whole

open Float.Model Float.Model.UnpackedFloat

/-! ### Mantissas of 53 bits -/

theorem log2_mul_two_pow {n : Nat} (h : 0 < n) (k : Nat) : (n * 2 ^ k).log2 = n.log2 + k := by
  induction k with
  | zero => rw [Nat.pow_zero, Nat.mul_one, Nat.add_zero]
  | succ k ih =>
    have h0 : n * 2 ^ k ≠ 0 := Nat.ne_of_gt (Nat.mul_pos h (Nat.two_pow_pos k))
    have e : n * 2 ^ (k + 1) = 2 * (n * 2 ^ k) := by rw [Nat.pow_succ]; ac_rfl
    rw [e, Nat.log2_two_mul h0, ih, Nat.add_assoc]

/-- the number with so many zeros behind it that it has 53 bits -/
def mantissa (n : Nat) : Nat := n * 2 ^ (52 - n.log2)

theorem mantissa_pos {n : Nat} (h : 0 < n) : 0 < mantissa n :=
  Nat.mul_pos h (Nat.two_pow_pos _)

theorem log2_le {n : Nat} (h : 0 < n) (hn : n < 2 ^ 53) : n.log2 ≤ 52 := by
  have := (Nat.log2_lt (Nat.ne_of_gt h)).mpr hn
  omega

theorem log2_mantissa {n : Nat} (h : 0 < n) (hn : n < 2 ^ 53) : (mantissa n).log2 = 52 := by
  have hl := log2_le h hn
  rw [mantissa, log2_mul_two_pow h]
  omega

/-! ### Rounding that changes nothing -/

def finite (s : Sign) (n : Nat) (h : 0 < n) : UnpackedFloat :=
  .finite s (mantissa n) ((n.log2 : Int) - 52) (mantissa_pos h)

theorem shiftRight_two_pow (m k : Nat) :
    (⟨m * 2 ^ k, false, false⟩ : ExtendedMantissa) >>> k = ⟨m, false, false⟩ := by
  show Nat.repeat ExtendedMantissa.shiftRightOne k _ = _
  induction k generalizing m with
  | zero => rw [Nat.pow_zero, Nat.mul_one]; rfl
  | succ k ih =>
    have e : m * 2 ^ (k + 1) = (m * 2) * 2 ^ k := by rw [Nat.pow_succ]; ac_rfl
    have hdiv : m * 2 / 2 = m := Nat.mul_div_cancel m (by decide)
    rw [Nat.repeat, e, ih (m * 2), ExtendedMantissa.shiftRightOne]
    simp [hdiv]

theorem targetExponent_eq {m : Nat} {e t : Int} (ht : (m.log2 : Int) + e = t + 52)
    (hlow : -1074 ≤ t) : Format.binary64.targetExponent (totalExponent m e) = t := by
  rw [Binary64.targetExponent_eq_max]
  omega

/-- a mantissa of 53 bits, with zeros behind it, rounds to itself -/
theorem roundWithAccuracy_mul (s : Sign) {m : Nat} (k : Nat) {e : Int} (h : 0 < m)
    (hm : m.log2 = 52) (he : -1074 ≤ e) :
    roundWithAccuracy Format.binary64 s (m * 2 ^ k) (e - k) .exact = .finite s m e h := by
  have hlt : m < 2 ^ 53 := ((Nat.log2_eq_iff (Nat.ne_of_gt h)).mp hm).2
  have hlog : ((m * 2 ^ k).log2 : Int) + (e - k) = e + 52 := by
    rw [log2_mul_two_pow h, hm]
    push_cast
    omega
  have hshift : shiftToTargetExponent Format.binary64 (m * 2 ^ k) (e - k) .exact =
      (⟨m, false, false⟩, e) := by
    have hk : (e - (e - k)).toNat = k := by omega
    simp only [shiftToTargetExponent, shiftToExponent, targetExponent_eq hlog he, hk,
      ExtendedMantissa.ofMantissaAndAccuracy, shiftRight_two_pow]
    simp
  have hrounded : (⟨m, false, false⟩ : ExtendedMantissa).roundedMantissa = m := rfl
  unfold roundWithAccuracy
  rw [hshift]
  dsimp only
  rw [hrounded, Binary64.shiftToTargetExponent_of_lt hlt he]
  exact dif_neg (Nat.ne_of_gt h)

theorem round_eq (s : Sign) {n : Nat} (h : 0 < n) (hn : n < 2 ^ 53) :
    UnpackedFloat.round Format.binary64 s n 0 = finite s n h := by
  have hl := log2_le h hn
  have ht := targetExponent_eq (m := n) (e := 0) (t := (n.log2 : Int) - 52) (by omega) (by omega)
  have hk : ((0 : Int) - ((n.log2 : Int) - 52)).toNat = 52 - n.log2 := by omega
  have he : (0 : Int) - ((52 - n.log2 : Nat) : Int) = (n.log2 : Int) - 52 := by omega
  have hr := roundWithAccuracy_mul s (m := mantissa n) 0 (e := (n.log2 : Int) - 52)
    (mantissa_pos h) (log2_mantissa h hn) (by omega)
  simp only [UnpackedFloat.round, ht, decreaseExponent, hk, he, Nat.shiftLeft_eq]
  rw [Nat.pow_zero, Nat.mul_one, Int.natCast_zero, Int.sub_zero] at hr
  exact hr

/-! ### Bits -/

/-- the bits of a double with a mantissa of 53 bits and an exponent in range say what it is -/
theorem unpack_pack_finite (s : Sign) {m : Nat} {e : Int} (h : 0 < m) (hm : m.log2 = 52)
    (hlow : -1074 ≤ e) (hhigh : e ≤ 971) :
    (Float.Model.pack (.finite s m e h)).unpack = .finite s m e h := by
  obtain ⟨hleading, hlt⟩ := (Nat.log2_eq_iff (Nat.ne_of_gt h)).mp hm
  have hpack := Binary64.ofBits_pack_finite s h ⟨hlt, hlow, .inl hleading⟩
  rw [if_pos hhigh, ← Binary64.ofUnpacked_unpack] at hpack
  exact Binary64.eq_finite_of_ofUnpacked h hpack

theorem unpack_pack (s : Sign) {n : Nat} (h : 0 < n) (hn : n < 2 ^ 53) :
    (Float.Model.pack (finite s n h)).unpack = finite s n h := by
  have hl := log2_le h hn
  exact unpack_pack_finite s (mantissa_pos h) (log2_mantissa h hn) (by omega) (by omega)

/-! ### Comparisons -/

/-- the double of a whole number; zero has the positive sign -/
def unpacked : Int → UnpackedFloat
  | .ofNat 0 => .zero .positive
  | .ofNat (n + 1) => finite .positive (n + 1) n.succ_pos
  | .negSucc n => finite .negative (n + 1) n.succ_pos

theorem unpack_ofNat {n : Nat} (hn : n < 2 ^ 53) : (Float.ofNat n).toModel.unpack = unpacked n := by
  have hone : (Float.ofBits 0x3FF0000000000000).toModel.unpack =
      .finite .positive (2 ^ 52) (-52) (by decide) := by rfl
  have hfast : Float.ofNat n = n.toUInt64.toFloat * Float.ofBits 0x3FF0000000000000 := by
    show Float.ofScientific n false 0 = _
    unfold Float.ofScientific
    rw [dif_pos ⟨hn, by decide⟩]
    rfl
  have hmul : (Float.ofNat n).toModel.unpack = (Float.Model.pack (UnpackedFloat.mul Format.binary64
      n.toUInt64.toFloat.toModel.unpack (.finite .positive (2 ^ 52) (-52) (by decide)))).unpack := by
    rw [hfast, ← hone]
    rfl
  have hnat : n.toUInt64.toNat = n := by
    rw [Nat.toUInt64, UInt64.toNat_ofNat']
    omega
  rw [hmul]
  cases n with
  | zero => rfl
  | succ n =>
    have hinput : (n + 1).toUInt64.toFloat.toModel.unpack = finite .positive (n + 1) n.succ_pos := by
      rw [← unpack_pack .positive n.succ_pos hn, ← round_eq .positive n.succ_pos hn]
      show (Float.Model.pack
        (UnpackedFloat.normalize Format.binary64 ((n + 1).toUInt64.toNat : Int) 0 .positive)).unpack = _
      rw [hnat]
      rfl
    have hl := log2_le n.succ_pos hn
    have hr : roundWithAccuracy Format.binary64 .positive (mantissa (n + 1) * 2 ^ 52)
        (((n + 1).log2 : Int) - 52 + -52) .exact = finite .positive (n + 1) n.succ_pos :=
      roundWithAccuracy_mul .positive 52 (mantissa_pos n.succ_pos) (log2_mantissa n.succ_pos hn)
        (by omega)
    rw [hinput]
    show (Float.Model.pack (roundWithAccuracy Format.binary64 .positive (mantissa (n + 1) * 2 ^ 52)
      (((n + 1).log2 : Int) - 52 + -52) .exact)).unpack = _
    rw [hr]
    exact unpack_pack .positive n.succ_pos hn

theorem unpack_ofInt {n : Int} (hn : n.natAbs < 2 ^ 53) :
    (Float.ofInt n).toModel.unpack = unpacked n := by
  cases n with
  | ofNat n => exact unpack_ofNat hn
  | negSucc n =>
    have h := unpack_ofNat (n := n + 1) hn
    show (Float.Model.pack ((Float.ofNat (n + 1)).toModel.unpack.neg)).unpack = _
    rw [h]
    exact unpack_pack .negative n.succ_pos hn

/-- of two numbers the one with fewer bits is smaller, and with equally many the one with the
smaller mantissa -/
theorem compare_mantissa {n k : Nat} (h : 0 < n) (hk : 0 < k) :
    (compare ((n.log2 : Int) - 52) ((k.log2 : Int) - 52)).then (compare (mantissa n) (mantissa k)) =
      compare n k := by
  obtain ⟨hn1, hn2⟩ := (Nat.log2_eq_iff (Nat.ne_of_gt h)).mp rfl
  obtain ⟨hk1, hk2⟩ := (Nat.log2_eq_iff (Nat.ne_of_gt hk)).mp rfl
  rcases Nat.lt_trichotomy n.log2 k.log2 with hlt | heq | hgt
  · have hp := Nat.pow_le_pow_right (n := 2) (by decide) hlt
    rw [Int.compare_eq_lt.mpr (by omega), Nat.compare_eq_lt.mpr (show n < k by omega)]
    rfl
  · rw [heq, Int.compare_eq_eq.mpr rfl]
    show compare (mantissa n) (mantissa k) = _
    have hz := Nat.two_pow_pos (52 - k.log2)
    rw [mantissa, mantissa, heq, Nat.compare_eq_ite_lt, Nat.compare_eq_ite_lt]
    simp only [Nat.mul_lt_mul_right hz]
  · have hp := Nat.pow_le_pow_right (n := 2) (by decide) hgt
    rw [Int.compare_eq_gt.mpr (by omega), Nat.compare_eq_gt.mpr (show k < n by omega)]
    rfl

theorem compare_unpacked (a b : Int) : (unpacked a).compare (unpacked b) = some (compare a b) := by
  match a, b with
  | .ofNat 0, .ofNat 0 => rfl
  | .ofNat 0, .ofNat (k + 1) => exact congrArg some (Int.compare_eq_lt.mpr (by simp)).symm
  | .ofNat 0, .negSucc k => exact congrArg some (Int.compare_eq_gt.mpr (Int.negSucc_lt_zero k)).symm
  | .ofNat (n + 1), .ofNat 0 => exact congrArg some (Int.compare_eq_gt.mpr (by simp)).symm
  | .negSucc n, .ofNat 0 => exact congrArg some (Int.compare_eq_lt.mpr (Int.negSucc_lt_zero n)).symm
  | .ofNat (n + 1), .negSucc k =>
    have h : Int.negSucc k < Int.ofNat (n + 1) :=
      Int.lt_of_lt_of_le (Int.negSucc_lt_zero k) (Int.natCast_nonneg _)
    exact congrArg some (Int.compare_eq_gt.mpr h).symm
  | .negSucc n, .ofNat (k + 1) =>
    have h : Int.negSucc n < Int.ofNat (k + 1) :=
      Int.lt_of_lt_of_le (Int.negSucc_lt_zero n) (Int.natCast_nonneg _)
    exact congrArg some (Int.compare_eq_lt.mpr h).symm
  | .ofNat (n + 1), .ofNat (k + 1) =>
    refine congrArg some ((compare_mantissa n.succ_pos k.succ_pos).trans ?_)
    rw [Nat.compare_eq_ite_lt, Int.compare_eq_ite_lt]
    simp only [Int.ofNat_eq_natCast, Int.ofNat_lt]
  | .negSucc n, .negSucc k =>
    refine congrArg some ((congrArg Ordering.swap
      (compare_mantissa n.succ_pos k.succ_pos)).trans ?_)
    have hlt (i j : Nat) : Int.negSucc i < Int.negSucc j ↔ j + 1 < i + 1 := by
      rw [Int.negSucc_eq, Int.negSucc_eq]
      omega
    rw [Nat.compare_swap, Nat.compare_eq_ite_lt, Int.compare_eq_ite_lt]
    simp only [hlt]

end TinyScript.Whole
