import Mathlib.Data.Rat.Floor
import TinyScript.Proofs.Binary64.Arithmetic
import TinyScript.Run

/-!
# The nearest integer of a double

A half is added to a double, and the sum is rounded down.  But the sum itself is rounded to a double before.
That could only matter if it brought the sum up to the next integer, and of all doubles that happens to one.

* `belowHalf`              that double
* `exists_double_above`    for all others, a double lies between the sum and the next integer
* `Value.CountsAs x n`     the double `x` is rounded to `n`, and is true exactly if `n` is not zero
* `Value.countsAs_iff`     the doubles that count as the integers that are nearest to them
-/

namespace TinyScript

namespace Binary64

theorem floor?_of_rational? {b : Binary64} {r : ℚ} (h : b.rational? = some r) : b.floor? = some ⌊r⌋ := by
  cases b with
  | finite negative mantissa exponent =>
    rw [← Option.some.inj h, ← signed_div_divisor, floor?]
    congr 1
    exact (Rat.floor_intCast_div_natCast _ (1 <<< (-exponent).toNat)).symm
  | infinite _ | nan => cases h

/-! ### Adding a half -/

/-- the greatest double that is less than a half -/
def belowHalf : Float := 0.49999999999999994

theorem ofFloat_belowHalf : ofFloat belowHalf = .finite false (2 ^ 53 - 1) (-54) := by decide +kernel

theorem rational?_half : (ofFloat 0.5).rational? = some (1 / 2) := by
  have hhalf : ofFloat 0.5 = .finite false (2 ^ 52) (-53) := by decide +kernel
  rw [hhalf, rational?, signed]
  norm_num

theorem abs_signed (negative : Bool) (m : Nat) : |signed negative m| = m := by
  cases negative <;> simp [signed]

section

variable {k e : ℤ} (hk : |k| < 2 ^ 53)

include hk

theorem abs_mul_zpow_le {t : ℤ} (he : e ≤ t) : |(k : ℚ) * 2 ^ e| ≤ 2 ^ 53 * 2 ^ t := by
  have hk' : |(k : ℚ)| ≤ 2 ^ 53 := by exact_mod_cast hk.le
  have hpower : (2 : ℚ) ^ e ≤ 2 ^ t := zpow_le_zpow_right₀ one_le_two he
  rw [abs_mul, abs_of_pos (show (0 : ℚ) < 2 ^ e by positivity)]
  gcongr

/-- A number below a half, but not the greatest one, is so far below that a double is between. -/
theorem exists_double_above_of_le (he : e ≤ -54) (hne : ¬ (k = 2 ^ 53 - 1 ∧ e = -54)) :
    ∃ z, Representable z ∧ (k : ℚ) * 2 ^ e + 1 / 2 ≤ z ∧ z < ⌊(k : ℚ) * 2 ^ e + 1 / 2⌋ + 1 := by
  have hsmall : |(k : ℚ) * 2 ^ e| ≤ 1 / 2 := by
    calc |(k : ℚ) * 2 ^ e| ≤ 2 ^ 53 * 2 ^ (-54 : ℤ) := abs_mul_zpow_le hk he
      _ = 1 / 2 := by norm_num
  have hupper : (k : ℚ) * 2 ^ e ≤ 1 / 2 - 1 / 2 ^ 53 := by
    rcases eq_or_lt_of_le he with rfl | hlt
    · have hle : (k : ℚ) ≤ (2 ^ 53 - 2 : ℤ) := by
        have := (abs_lt.mp hk).2
        exact_mod_cast (show k ≤ 2 ^ 53 - 2 by omega)
      calc (k : ℚ) * 2 ^ (-54 : ℤ) ≤ (2 ^ 53 - 2 : ℤ) * 2 ^ (-54 : ℤ) := by gcongr
        _ = 1 / 2 - 1 / 2 ^ 53 := by norm_num
    · calc (k : ℚ) * 2 ^ e ≤ |(k : ℚ) * 2 ^ e| := le_abs_self _
        _ ≤ 2 ^ 53 * 2 ^ (-55 : ℤ) := abs_mul_zpow_le hk (by omega)
        _ ≤ 1 / 2 - 1 / 2 ^ 53 := by norm_num
  have hfloor : ((0 : ℤ) : ℚ) ≤ ⌊(k : ℚ) * 2 ^ e + 1 / 2⌋ := by
    rw [Int.cast_le, Int.le_floor, Int.cast_zero]
    linarith [(abs_le.mp hsmall).1]
  refine ⟨1 - 1 / 2 ^ 53, ⟨2 ^ 53 - 1, -53, by norm_num, by norm_num, by norm_num⟩, ?_, ?_⟩
  · linarith
  · push_cast at hfloor
    linarith

/-- If the half carries a number to a power of two or beyond, the sum is only just above it. -/
theorem exists_double_above_of_carry (hlo : -53 ≤ e) (hhi : e ≤ -2)
    (hcarry : 2 ^ 53 * 2 ^ e ≤ (k : ℚ) * 2 ^ e + 1 / 2) :
    ∃ z, Representable z ∧ (k : ℚ) * 2 ^ e + 1 / 2 ≤ z ∧ z < ⌊(k : ℚ) * 2 ^ e + 1 / 2⌋ + 1 := by
  obtain ⟨j, hj⟩ : ∃ j : Nat, (j : ℤ) = e + 53 := ⟨(e + 53).toNat, by omega⟩
  have hpower : ((2 ^ j : ℤ) : ℚ) = 2 ^ 53 * 2 ^ e := by
    push_cast
    rw [← zpow_natCast, hj, zpow_add₀ two_ne_zero, mul_comm]
    rfl
  have hupper : (k : ℚ) * 2 ^ e ≤ (2 ^ j : ℤ) := by
    rw [hpower]
    exact (le_abs_self _).trans (abs_mul_zpow_le hk le_rfl)
  have hfloor : ((2 ^ j : ℤ) : ℚ) ≤ ⌊(k : ℚ) * 2 ^ e + 1 / 2⌋ := by
    rw [← hpower] at hcarry
    exact Int.cast_le.mpr (Int.le_floor.mpr hcarry)
  refine ⟨(2 ^ j : ℤ) + 1 / 2, ⟨2 ^ (j + 1) + 1, -1, ?_, ?_, by decide⟩, ?_, ?_⟩
  · push_cast
    rw [pow_succ, zpow_neg_one]
    ring
  · have hle : (2 : ℤ) ^ (j + 1) ≤ 2 ^ 52 := pow_le_pow_right₀ (by decide) (by omega)
    have hpos : (0 : ℤ) < 2 ^ (j + 1) := by positivity
    exact abs_le.mpr ⟨by omega, by omega⟩
  · linarith
  · linarith

/-- If a half is no less than the last bit of a number, the sum has 53 bits unless there is a carry. -/
theorem exists_double_above_of_ge (hlo : -53 ≤ e) (hhi : e ≤ -1) :
    ∃ z, Representable z ∧ (k : ℚ) * 2 ^ e + 1 / 2 ≤ z ∧ z < ⌊(k : ℚ) * 2 ^ e + 1 / 2⌋ + 1 := by
  obtain ⟨hk1, hk2⟩ := abs_lt.mp hk
  obtain ⟨i, hi⟩ : ∃ i : Nat, -1 = e + i := ⟨(-1 - e).toNat, by omega⟩
  have hsum : (k : ℚ) * 2 ^ e + 1 / 2 = ((k + 2 ^ i : ℤ) : ℚ) * 2 ^ e := by
    have hhalf : (1 / 2 : ℚ) = 2 ^ e * 2 ^ i := by
      rw [← zpow_eq_mul_pow hi]
      norm_num
    rw [hhalf]
    push_cast
    ring
  have hbit : (0 : ℤ) < 2 ^ i := by positivity
  rcases le_or_gt (k + 2 ^ i) (2 ^ 53) with hfits | hcarry
  · have hrepresentable : Representable ((k : ℚ) * 2 ^ e + 1 / 2) :=
      ⟨k + 2 ^ i, e, hsum, abs_le.mpr ⟨by omega, hfits⟩, by omega⟩
    exact ⟨_, hrepresentable, le_rfl, Int.lt_floor_add_one _⟩
  · have hi0 : i ≠ 0 := by
      rintro rfl
      omega
    have hle : (2 ^ 53 : ℚ) ≤ (k + 2 ^ i : ℤ) := by exact_mod_cast hcarry.le
    refine exists_double_above_of_carry hk hlo (by omega) ?_
    rw [hsum]
    gcongr

end

/-- **Between a double plus a half and the next integer there is a double**, or the sum itself is one, unless
the double is the one just below a half.  Very large doubles are integers anyway. -/
theorem exists_double_above {x : Float} {X : ℚ} (hx : (ofFloat x).rational? = some X)
    (hsmall : |X| < 2 ^ 52) (hne : x ≠ belowHalf) :
    ∃ z, Representable z ∧ X + 1 / 2 ≤ z ∧ z < ⌊X + 1 / 2⌋ + 1 := by
  cases hb : ofFloat x with
  | infinite _ | nan =>
    rw [hb] at hx
    cases hx
  | finite negative m e =>
    have hc : Canonical m e := canonical_of_ofBits hb
    have hk : |signed negative m| < 2 ^ 53 := by
      rw [abs_signed]
      exact_mod_cast hc.mantissa_lt
    rw [hb] at hx
    obtain rfl := Option.some.inj hx
    have he : e ≤ -1 := by
      by_contra h
      have hleading : (2 : ℚ) ^ 52 ≤ m := by exact_mod_cast hc.leading.resolve_right (by omega)
      have hpower : (1 : ℚ) ≤ 2 ^ e := one_le_zpow₀ one_le_two (by omega)
      have hcast : |((signed negative m : ℤ) : ℚ)| = m := by exact_mod_cast abs_signed negative m
      rw [abs_mul, hcast, abs_of_pos (show (0 : ℚ) < 2 ^ e by positivity)] at hsmall
      nlinarith
    rcases le_or_gt e (-54) with hle | hgt
    · refine exists_double_above_of_le hk hle fun ⟨hmantissa, hexponent⟩ => hne ?_
      apply ofFloat_injective
      rw [hb, ofFloat_belowHalf, hexponent]
      cases negative with
      | false =>
        rw [signed, if_neg (by decide)] at hmantissa
        congr 1
        omega
      | true =>
        rw [signed, if_pos rfl] at hmantissa
        omega
    · exact exists_double_above_of_ge hk (by omega) he

end Binary64

namespace Value

open Binary64

variable {x : Float} {X : ℚ} {N : ℤ}

theorem rational?_of_nearest? {n : ℤ} (h : nearest? x = some n) :
    ∃ r, (ofFloat (x + 0.5)).rational? = some r ∧ ⌊r⌋ = n := by
  unfold nearest? at h
  cases hb : ofFloat (x + 0.5) with
  | finite negative m e =>
    rw [hb, floor?_of_rational? rfl] at h
    exact ⟨_, rfl, Option.some.inj h⟩
  | infinite _ | nan =>
    rw [hb] at h
    cases h

/-- an integer of more than 51 bits is none of 32 -/
theorem not_fits {n : ℤ} (h : (2 : ℚ) ^ 51 ≤ n ∨ (n : ℚ) ≤ -2 ^ 51) : ¬ Fits n := by
  rintro ⟨hlo, hhi⟩
  rcases h with h | h
  · have hle : (2 ^ 51 : ℤ) ≤ n := by exact_mod_cast h
    omega
  · have hle : n ≤ (-2 ^ 51 : ℤ) := by exact_mod_cast h
    omega

section

variable (hx : (ofFloat x).rational? = some X) (hlo : N - 1 / 2 ≤ X) (hhi : X < N + 1 / 2)

include hx hlo hhi

theorem nearest?_of_small (hsmall : |X| < 2 ^ 52) (hne : x ≠ belowHalf) : nearest? x = some N := by
  have hrounds := rounds_add hx rational?_half
  have hfloor : ⌊X + 1 / 2⌋ = N := Int.floor_eq_iff.mpr ⟨by linarith, by linarith⟩
  obtain ⟨hX1, hX2⟩ := abs_lt.mp hsmall
  have hbound : |X + 1 / 2| < 2 ^ 1023 := by
    calc |X + 1 / 2| < 2 ^ 53 := abs_lt.mpr ⟨by linarith, by linarith⟩
      _ ≤ 2 ^ 1023 := pow_le_pow_right₀ one_le_two (by decide)
  obtain ⟨r, hr⟩ := hrounds.exists_rational hbound
  obtain ⟨z, hz, hyz, hlt⟩ := exists_double_above hx hsmall hne
  have hN : Representable N := by
    have hN1 : ((-2 ^ 53 : ℤ) : ℚ) ≤ N := by
      push_cast
      linarith
    have hN2 : (N : ℚ) ≤ (2 ^ 53 : ℤ) := by
      push_cast
      linarith
    exact representable_int (abs_le.mpr ⟨Int.cast_le.mp hN1, Int.cast_le.mp hN2⟩)
  have hbelow : (N : ℚ) ≤ r := hrounds.ge_of_representable hr hN (by linarith)
  have habove : r ≤ z := hrounds.le_of_representable hr hz hyz
  rw [nearest?, floor?_of_rational? hr, Option.some.injEq, Int.floor_eq_iff]
  rw [hfloor] at hlt
  exact ⟨hbelow, by linarith⟩

theorem not_fits_of_large (hlarge : 2 ^ 52 ≤ |X|) :
    ¬ Fits N ∧ ∀ n, nearest? x = some n → ¬ Fits n := by
  have hrounds := rounds_add hx rational?_half
  have hlimit : Representable (2 ^ 51) := ⟨2 ^ 51, 0, by norm_num, by norm_num, by norm_num⟩
  rcases le_abs.mp hlarge with hX | hX
  · refine ⟨not_fits (.inl (by linarith)), fun n hn => not_fits (.inl ?_)⟩
    obtain ⟨r, hr, rfl⟩ := rational?_of_nearest? hn
    have habove : 2 ^ 51 ≤ r := hrounds.ge_of_representable hr hlimit (by linarith)
    have hle : (2 ^ 51 : ℤ) ≤ ⌊r⌋ := Int.le_floor.mpr (by exact_mod_cast habove)
    exact_mod_cast hle
  · refine ⟨not_fits (.inr (by linarith)), fun n hn => not_fits (.inr ?_)⟩
    obtain ⟨r, hr, rfl⟩ := rational?_of_nearest? hn
    have hbelow : r ≤ -2 ^ 51 := hrounds.le_of_representable hr hlimit.neg (by linarith)
    exact (Int.floor_le r).trans hbelow

end

/-! ### Rounding and truth -/

/-- The double is rounded to the integer if that fits, and is true exactly if the integer is not zero: as a
condition of a statement and as an operand of a logical operator. -/
structure CountsAs (x : Float) (n : ℤ) : Prop where
  round : Value.round (.float x) =
    if Fits n then .ok (.int (Int32.ofInt n)) else .error (.invalidCoercion (.float x) .roundedInteger)
  condition : Value.condition (.float x) = .ok (n ≠ 0)
  ite : ∀ (r : Run) e body other work, r.work = .ite e body other :: work →
    e.eval r.store = .ok (.float x) →
    r.step = r.goOn (if n ≠ 0 then body ++ work else other.getD [] ++ work)
  loop : ∀ (r : Run) e body work, r.work = .while e body :: work → e.eval r.store = .ok (.float x) →
    r.step = r.goOn (if n ≠ 0 then body ++ .while e body :: work else work)
  negate : Value.negate (.float x) = .ok (ofBool (n = 0))
  left : ∀ v t, v.truth? = some t →
    apply .and (.float x) v = .ok (ofBool (n ≠ 0 && t)) ∧
    apply .or (.float x) v = .ok (ofBool (n ≠ 0 || t))
  right : ∀ v t, v.truth? = some t →
    apply .and v (.float x) = .ok (ofBool (t && n ≠ 0)) ∧
    apply .or v (.float x) = .ok (ofBool (t || n ≠ 0))

/-- everything but rounding is a matter of the truth value -/
theorem CountsAs.of_truth {n : ℤ} (htruth : floatTruth x = decide (n ≠ 0))
    (hround : Value.round (.float x) =
      if Fits n then .ok (.int (Int32.ofInt n))
      else .error (.invalidCoercion (.float x) .roundedInteger)) : CountsAs x n := by
  have htruth' : (Value.float x).truth? = some (decide (n ≠ 0)) := congrArg some htruth
  have hcondition : Value.condition (.float x) = .ok (decide (n ≠ 0)) := by
    rw [Value.condition, htruth']
  have hholds {e : Expr} {store : Store} (h : e.eval store = .ok (.float x)) :
      e.holds store = .ok (decide (n ≠ 0)) := by
    rw [Expr.holds, h]
    exact hcondition
  refine ⟨hround, hcondition, fun r e body other work hwork he => ?_, fun r e body work hwork he => ?_, ?_,
    fun v t hv => ?_, fun v t hv => ?_⟩
  · unfold Run.step
    rw [hwork]
    dsimp only
    rw [hholds he]
    by_cases hn : n = 0 <;> simp [hn]
  · unfold Run.step
    rw [hwork]
    dsimp only
    rw [hholds he]
    by_cases hn : n = 0 <;> simp [hn]
  · rw [Value.negate, htruth']
    simp
  · rw [apply, apply, logical, logical, htruth', hv]
    exact ⟨rfl, rfl⟩
  · rw [apply, apply, logical, logical, htruth', hv]
    exact ⟨rfl, rfl⟩

theorem floatTruth_eq (h : ofFloat (x + 0.5) ≠ .nan) : floatTruth x = decide (nearest? x ≠ some 0) := by
  unfold floatTruth nearest?
  split
  · next hnan => exact absurd hnan h
  · next hinfinite => rw [hinfinite]; rfl
  · simp [bne, beq_eq_decide]

theorem countsAs_of_nearest? {n : ℤ} (hnan : ofFloat (x + 0.5) ≠ .nan)
    (h : nearest? x = some n ∨ ¬ Fits n ∧ ∀ k, nearest? x = some k → ¬ Fits k) : CountsAs x n := by
  have hzero : Fits 0 := by decide
  refine .of_truth ?_ ?_
  · rw [floatTruth_eq hnan]
    rcases h with h | ⟨hn, hk⟩
    · simp [h]
    · have hleft : nearest? x ≠ some 0 := fun he => hk 0 he hzero
      have hright : n ≠ 0 := fun he => hn (he ▸ hzero)
      simp [hleft, hright]
  · unfold Value.round
    dsimp only
    rcases h with h | ⟨hn, hk⟩
    · rw [h]
    · rw [if_neg hn]
      split
      · next k hk' => rw [if_neg (hk k hk')]
      · rfl

/-! The double just below a half becomes one when a half is added. -/

theorem rational?_belowHalf : (ofFloat belowHalf).rational? = some (1 / 2 - 1 / 2 ^ 54) := by
  rw [ofFloat_belowHalf, rational?, signed]
  norm_num

theorem nearest?_belowHalf : nearest? belowHalf = some 1 := by decide +kernel

theorem round_belowHalf : Value.round (.float belowHalf) = .ok (.int 1) := by
  unfold Value.round
  dsimp only
  rw [nearest?_belowHalf]
  rfl

theorem condition_belowHalf : Value.condition (.float belowHalf) = .ok true := by decide +kernel

/-- **Which doubles count as the nearest integer.**  Every finite double but one is rounded to the integer
nearest to it, with halves going up, or cannot be rounded if that has more than 32 bits, and it is true
exactly if that integer is not zero.  The one that does not is the double just below a half. -/
theorem countsAs_iff (hx : (ofFloat x).rational? = some X) (hlo : N - 1 / 2 ≤ X)
    (hhi : X < N + 1 / 2) : CountsAs x N ↔ x ≠ belowHalf := by
  constructor
  · rintro h rfl
    obtain rfl := Option.some.inj (hx.symm.trans rational?_belowHalf)
    have hlower : ((-1 : ℤ) : ℚ) < N := by
      push_cast
      linarith
    have hupper : (N : ℚ) < (1 : ℤ) := by
      push_cast
      linarith
    obtain rfl : N = 0 := by
      have := Int.cast_lt.mp hlower
      have := Int.cast_lt.mp hupper
      omega
    cases h.condition.symm.trans condition_belowHalf
  · intro hne
    refine countsAs_of_nearest? (rounds_add hx rational?_half).ne_nan ?_
    rcases lt_or_ge |X| (2 ^ 52) with hsmall | hlarge
    · exact .inl (nearest?_of_small hx hlo hhi hsmall hne)
    · exact .inr (not_fits_of_large hx hlo hhi hlarge)

/-- two and a half, below zero -/
theorem countsAs_minus_two : CountsAs (-2.5) (-2) := by
  have hfields : ofFloat (-2.5) = .finite true (5 * 2 ^ 50) (-51) := by decide +kernel
  have hvalue : (ofFloat (-2.5)).rational? = some (-5 / 2) := by
    rw [hfields, rational?, signed]
    norm_num
  exact (countsAs_iff hvalue (by norm_num) (by norm_num)).mpr (by decide +kernel)

/-- The double just below a half is nearest to zero, but it is rounded to one and counts as true. -/
theorem below_half_counts_as_one :
    (ofFloat belowHalf).rational? = some (1 / 2 - 1 / 2 ^ 54) ∧
    (0 : ℤ) - 1 / 2 ≤ (1 / 2 - 1 / 2 ^ 54 : ℚ) ∧ 1 / 2 - 1 / 2 ^ 54 < ((0 : ℤ) + 1 / 2 : ℚ) ∧
    Value.round (.float belowHalf) = .ok (.int 1) ∧ Value.condition (.float belowHalf) = .ok true ∧
    ¬ CountsAs belowHalf 0 := by
  refine ⟨rational?_belowHalf, by norm_num, by norm_num, round_belowHalf, condition_belowHalf, fun h => ?_⟩
  cases h.condition.symm.trans condition_belowHalf

end Value

end TinyScript
