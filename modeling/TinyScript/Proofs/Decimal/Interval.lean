import Mathlib.Tactic.Linarith
import Mathlib.Tactic.Ring
import TinyScript.Proofs.Binary64
import TinyScript.Proofs.Decimal.Shortest

/-!
# Decimals between the neighbours of a double

The shortest decimal of a double lies in the interval of the numbers that are closest to it.  The intervals
of two doubles have no number in common, so the decimal says which double it was.

* `Scientific.value`                 the number that a decimal is
* `Target.Contains`                  a number of the interval
* `contains_shortest`                the shortest decimal is one
* `eq_of_contains`                   no number is in the intervals of two doubles
-/

namespace TinyScript.Decimal

namespace Scientific

def value (d : Scientific) : ℚ := d.coefficient * 10 ^ d.exponent

theorem value_trim (n : Nat) (d : Scientific) : (d.trim n).value = d.value := by
  induction n generalizing d with
  | zero => rfl
  | succ n ih =>
    rw [trim]
    split
    · next hmod =>
      have hten : (d.coefficient : ℚ) = (d.coefficient / 10 : Nat) * 10 := by
        exact_mod_cast (Nat.div_mul_cancel (Nat.dvd_of_mod_eq_zero hmod)).symm
      rw [ih, value, value, hten, zpow_add_one₀ (by norm_num)]
      ring
    · rfl

end Scientific

namespace Target

/-- The number is in the interval. -/
def Contains (t : Target) (x : ℚ) : Prop :=
  if t.closed then (t.low : ℚ) ≤ x * t.denominator ∧ x * t.denominator ≤ t.high
  else (t.low : ℚ) < x * t.denominator ∧ x * t.denominator < t.high

/-- the value is inside of the interval -/
structure Inside (t : Target) : Prop where
  low_lt : t.low < t.value
  lt_high : t.value < t.high
  denominator : 0 < t.denominator

theorem contains_of_lt {t : Target} {x : ℚ} (hlow : (t.low : ℚ) < x * t.denominator)
    (hhigh : x * t.denominator < t.high) : t.Contains x := by
  unfold Contains
  split
  · exact ⟨hlow.le, hhigh.le⟩
  · exact ⟨hlow, hhigh⟩

/-! ### Units -/

theorem ten_zpow (grid : Int) : (10 : ℚ) ^ grid * 10 ^ (-grid).toNat = 10 ^ grid.toNat := by
  rw [← zpow_natCast, ← zpow_natCast, ← zpow_add₀ (by norm_num)]
  congr 1
  omega

theorem mul_denominator_inUnits (t : Target) (grid : Int) (y : ℚ) :
    y * (t.inUnits grid).denominator = y * 10 ^ grid * t.denominator * 10 ^ (-grid).toNat := by
  have hdenominator : ((t.inUnits grid).denominator : ℚ) = t.denominator * 10 ^ grid.toNat := by
    exact_mod_cast rfl
  rw [hdenominator, ← ten_zpow grid]
  ring

/-- Counting in units changes nothing. -/
theorem contains_inUnits {t : Target} {grid : Int} {y : ℚ} :
    (t.inUnits grid).Contains y ↔ t.Contains (y * 10 ^ grid) := by
  have hfactor : (0 : ℚ) < 10 ^ (-grid).toNat := by positivity
  have hlow : ((t.inUnits grid).low : ℚ) = t.low * 10 ^ (-grid).toNat := by exact_mod_cast rfl
  have hhigh : ((t.inUnits grid).high : ℚ) = t.high * 10 ^ (-grid).toNat := by exact_mod_cast rfl
  have hclosed : (t.inUnits grid).closed = t.closed := rfl
  unfold Contains
  rw [hclosed, mul_denominator_inUnits, hlow, hhigh]
  simp only [mul_le_mul_iff_of_pos_right hfactor, mul_lt_mul_iff_of_pos_right hfactor]

theorem Inside.inUnits {t : Target} (h : t.Inside) (grid : Int) : (t.inUnits grid).Inside where
  low_lt := Nat.mul_lt_mul_of_pos_right h.low_lt (Nat.pow_pos (by decide))
  lt_high := Nat.mul_lt_mul_of_pos_right h.lt_high (Nat.pow_pos (by decide))
  denominator := Nat.mul_pos h.denominator (Nat.pow_pos (by decide))

/-! ### The search -/

/-- the integer is on the right side of the lower end -/
def AboveLow (t : Target) (c : Nat) : Prop :=
  if t.closed then t.low ≤ c * t.denominator else t.low < c * t.denominator

/-- the integer is on the right side of the upper end -/
def BelowHigh (t : Target) (c : Nat) : Prop :=
  if t.closed then c * t.denominator ≤ t.high else c * t.denominator < t.high

theorem aboveLow_of_lt {t : Target} {c : Nat} (h : t.low < c * t.denominator) : t.AboveLow c := by
  unfold AboveLow
  split
  · exact h.le
  · exact h

theorem belowHigh_of_lt {t : Target} {c : Nat} (h : c * t.denominator < t.high) : t.BelowHigh c := by
  unfold BelowHigh
  split
  · exact h.le
  · exact h

theorem contains_natCast {t : Target} {c : Nat} : t.Contains c ↔ t.AboveLow c ∧ t.BelowHigh c := by
  unfold Contains AboveLow BelowHigh
  split <;> norm_cast

/-- What is found is one of the two candidates, and it was compared with the end that it is closer to. -/
theorem integer?_cases {t : Target} {tie : Tie} {c : Nat} (hc : t.integer? tie = some c) :
    (c = t.value / t.denominator ∧ t.AboveLow c) ∨
      (c = t.value / t.denominator + 1 ∧ t.BelowHigh c) := by
  unfold integer? at hc
  extract_lets below above lowHit highHit at hc
  have hbelow (hit : lowHit) (heq : below = c) : c = below ∧ t.AboveLow c := heq ▸ ⟨rfl, hit⟩
  have habove (hit : highHit) (heq : above = c) : c = above ∧ t.BelowHigh c := heq ▸ ⟨rfl, hit⟩
  split at hc
  · next hitLow =>
    split at hc
    · next hitHigh =>
      split at hc
      · exact .inl (hbelow hitLow (Option.some.inj hc))
      · exact .inr (habove hitHigh (Option.some.inj hc))
      · split at hc
        · exact .inr (habove hitHigh (Option.some.inj hc))
        · have heq := Option.some.inj hc
          split at heq
          · exact .inl (hbelow hitLow heq)
          · exact .inr (habove hitHigh heq)
    · exact .inl (hbelow hitLow (Option.some.inj hc))
  · split at hc
    · next hitHigh => exact .inr (habove hitHigh (Option.some.inj hc))
    · cases hc

/-- Both candidates are next to the value, so the other end is no question. -/
theorem contains_of_integer? {t : Target} (h : t.Inside) {tie : Tie} {c : Nat}
    (hc : t.integer? tie = some c) : t.Contains c := by
  rw [contains_natCast]
  rcases integer?_cases hc with ⟨rfl, hlow⟩ | ⟨rfl, hhigh⟩
  · exact ⟨hlow, belowHigh_of_lt (Nat.lt_of_le_of_lt (Nat.div_mul_le_self _ _) h.lt_high)⟩
  · refine ⟨aboveLow_of_lt ?_, hhigh⟩
    rw [Nat.mul_comm]
    exact Nat.lt_trans h.low_lt (Nat.lt_mul_div_succ t.value h.denominator)

/-- the decimal with `n` digits that is next below the value -/
def nextBelow (t : Target) (n : Nat) : Scientific :=
  ⟨(t.inUnits (t.point - n)).value / (t.inUnits (t.point - n)).denominator, t.point - n⟩

theorem contains_search {t : Target} (h : t.Inside) (tie : Tie) (tries n : Nat)
    (hlast : t.Contains (t.nextBelow (n + tries)).value) :
    t.Contains (t.search tie tries n).value := by
  induction tries generalizing n with
  | zero => exact hlast
  | succ tries ih =>
    rw [search]
    split
    · next c hc => exact contains_inUnits.mp (contains_of_integer? (h.inUnits _) hc)
    · exact ih (n + 1) (by rwa [Nat.add_right_comm n 1 tries, Nat.add_assoc])

theorem unit_le_value {t : Target} (h : t.Positive) :
    (10 : ℚ) ^ (t.point - 1) * t.denominator ≤ t.value := by
  have hfactor : (0 : ℚ) < 10 ^ (-(t.point - 1)).toNat := by positivity
  have hunit : (1 : ℚ) * (t.inUnits (t.point - 1)).denominator ≤ (t.inUnits (t.point - 1)).value := by
    rw [one_mul]
    exact_mod_cast h.unit_le_value Nat.one_pos
  have hvalue : ((t.inUnits (t.point - 1)).value : ℚ) = t.value * 10 ^ (-(t.point - 1)).toNat := by
    exact_mod_cast rfl
  rw [mul_denominator_inUnits, hvalue, one_mul] at hunit
  exact le_of_mul_le_mul_right hunit hfactor

/-- With eighteen digits the unit is so small that the next decimal below the value is in the interval. -/
theorem contains_nextBelow {t : Target} (h : t.Inside) (hpos : t.Positive)
    (hgap : (t.value : ℚ) ≤ 10 ^ 17 * (t.value - t.low)) : t.Contains (t.nextBelow 18).value := by
  set grid : Int := t.point - 18 with hgrid
  set c : Nat := (t.inUnits grid).value / (t.inUnits grid).denominator with hc
  have hvalue : (t.nextBelow 18).value = c * 10 ^ grid := rfl
  have hfactor : (0 : ℚ) < 10 ^ (-grid).toNat := by positivity
  have hscaled : ((t.inUnits grid).value : ℚ) = t.value * 10 ^ (-grid).toNat := by
    exact_mod_cast rfl
  have hbelow : (c : ℚ) * 10 ^ grid * t.denominator ≤ t.value := by
    have hle : (c : ℚ) * (t.inUnits grid).denominator ≤ (t.inUnits grid).value := by
      exact_mod_cast Nat.div_mul_le_self _ _
    rw [mul_denominator_inUnits, hscaled] at hle
    exact le_of_mul_le_mul_right hle hfactor
  have habove : (t.value : ℚ) < (c + 1) * 10 ^ grid * t.denominator := by
    have hlt : ((t.inUnits grid).value : ℚ) < (c + 1) * (t.inUnits grid).denominator := by
      have := Nat.lt_mul_div_succ (t.inUnits grid).value (h.inUnits grid).denominator
      rw [Nat.mul_comm] at this
      exact_mod_cast this
    rw [mul_denominator_inUnits, hscaled] at hlt
    exact lt_of_mul_lt_mul_right hlt hfactor.le
  have hunit : (10 : ℚ) ^ grid * t.denominator ≤ t.value - t.low := by
    have hfirst := unit_le_value hpos
    have hpow : (10 : ℚ) ^ (t.point - 1) = 10 ^ 17 * 10 ^ grid := by
      rw [← zpow_natCast, ← zpow_add₀ (by norm_num), hgrid]
      congr 1
      push_cast
      ring
    rw [hpow, mul_assoc] at hfirst
    exact le_of_mul_le_mul_left (hfirst.trans hgap) (by norm_num)
  rw [hvalue]
  refine contains_of_lt ?_ (hbelow.trans_lt (by exact_mod_cast h.lt_high))
  linarith

/-! ### The interval of a double -/

/-- how many quarters of a unit the interval reaches below the double -/
def reach (mantissa : Nat) (exponent : Int) : Nat :=
  if mantissa = Binary64.leadingBit ∧ -1074 < exponent then 1 else 2

theorem reach_le (mantissa : Nat) (exponent : Int) : reach mantissa exponent ≤ 2 := by
  unfold reach
  split <;> decide

theorem reach_pos (mantissa : Nat) (exponent : Int) : 0 < reach mantissa exponent := by
  unfold reach
  split <;> decide

variable {mantissa : Nat} {exponent : Int}

/-- a quarter of a unit, over the common denominator -/
def scale (exponent : Int) : Nat := 1 <<< (exponent - 2).toNat

theorem scale_pos (exponent : Int) : 0 < scale exponent := by
  rw [scale, Nat.one_shiftLeft]
  exact Nat.two_pow_pos _

theorem low_ofBinary (mantissa : Nat) (exponent : Int) : (ofBinary mantissa exponent).low =
    (4 * mantissa - reach mantissa exponent) * scale exponent := rfl

theorem value_ofBinary (mantissa : Nat) (exponent : Int) :
    (ofBinary mantissa exponent).value = 4 * mantissa * scale exponent := rfl

theorem high_ofBinary (mantissa : Nat) (exponent : Int) :
    (ofBinary mantissa exponent).high = (4 * mantissa + 2) * scale exponent := rfl

theorem denominator_ofBinary (mantissa : Nat) (exponent : Int) :
    (ofBinary mantissa exponent).denominator = 2 ^ (2 - exponent).toNat := Nat.one_shiftLeft _

theorem inside_ofBinary (h : 0 < mantissa) (exponent : Int) :
    (ofBinary mantissa exponent).Inside := by
  have hscale := scale_pos exponent
  have hreach := reach_pos mantissa exponent
  refine ⟨?_, ?_, ?_⟩
  · rw [low_ofBinary, value_ofBinary]
    exact Nat.mul_lt_mul_of_pos_right (Nat.sub_lt (by omega) hreach) hscale
  · rw [value_ofBinary, high_ofBinary]
    exact Nat.mul_lt_mul_of_pos_right (by omega) hscale
  · rw [denominator_ofBinary]
    exact Nat.two_pow_pos _

theorem gap_ofBinary (hpos : 0 < mantissa) (hlt : mantissa < 2 ^ 53) (exponent : Int) :
    ((ofBinary mantissa exponent).value : ℚ) ≤
      10 ^ 17 * ((ofBinary mantissa exponent).value - (ofBinary mantissa exponent).low) := by
  have hpositive := reach_pos mantissa exponent
  have hle := reach_le mantissa exponent
  have hsum : (ofBinary mantissa exponent).value =
      (ofBinary mantissa exponent).low + reach mantissa exponent * scale exponent := by
    rw [low_ofBinary, value_ofBinary, ← Nat.add_mul, Nat.sub_add_cancel (by omega)]
  have hmantissa : 4 * mantissa ≤ 10 ^ 17 * reach mantissa exponent := by omega
  have hvalue : (ofBinary mantissa exponent).value ≤
      10 ^ 17 * (reach mantissa exponent * scale exponent) := by
    rw [value_ofBinary, ← Nat.mul_assoc]
    exact Nat.mul_le_mul_right _ hmantissa
  have hdifference : ((ofBinary mantissa exponent).value : ℚ) - (ofBinary mantissa exponent).low =
      (reach mantissa exponent * scale exponent : Nat) := by
    rw [hsum, Nat.cast_add, add_sub_cancel_left]
  rw [hdifference]
  exact_mod_cast hvalue

/-- The interval in quarters of a unit, with its ends if the mantissa is even. -/
theorem contains_ofBinary {x : ℚ} (h : (ofBinary mantissa exponent).Contains x) :
    let low : ℚ := (4 * mantissa - reach mantissa exponent : Nat) * 2 ^ (exponent - 2)
    let high : ℚ := (4 * mantissa + 2 : Nat) * 2 ^ (exponent - 2)
    low ≤ x ∧ x ≤ high ∧ (mantissa % 2 ≠ 0 → low < x ∧ x < high) := by
  intro low high
  have hdenominator : (0 : ℚ) < (ofBinary mantissa exponent).denominator := by
    rw [denominator_ofBinary]
    positivity
  have hscale : (scale exponent : ℚ) =
      2 ^ (exponent - 2) * (ofBinary mantissa exponent).denominator := by
    rw [scale, Nat.one_shiftLeft, denominator_ofBinary]
    push_cast
    rw [← zpow_natCast, ← zpow_natCast, ← zpow_add₀ two_ne_zero]
    congr 1
    omega
  have hlow : ((ofBinary mantissa exponent).low : ℚ) =
      low * (ofBinary mantissa exponent).denominator := by
    rw [low_ofBinary, Nat.cast_mul, hscale, mul_assoc]
  have hhigh : ((ofBinary mantissa exponent).high : ℚ) =
      high * (ofBinary mantissa exponent).denominator := by
    rw [high_ofBinary, Nat.cast_mul, hscale, mul_assoc]
  unfold Contains at h
  rw [hlow, hhigh] at h
  simp only [mul_le_mul_iff_of_pos_right hdenominator, mul_lt_mul_iff_of_pos_right hdenominator] at h
  split at h
  · next hclosed =>
    have heven : mantissa % 2 = 0 := of_decide_eq_true hclosed
    exact ⟨h.1, h.2, fun hodd => absurd heven hodd⟩
  · exact ⟨h.1.le, h.2.le, fun _ => h⟩

end Target

variable {mantissa mantissa' : Nat} {exponent exponent' : Int}

theorem contains_shortest (tie : Tie) (hpos : 0 < mantissa) (hlt : mantissa < 2 ^ 53) (exponent : Int) :
    (Target.ofBinary mantissa exponent).Contains (shortest tie mantissa exponent).value := by
  have hinside := Target.inside_ofBinary hpos exponent
  rw [shortest, Scientific.value_trim]
  exact Target.contains_search hinside tie 17 1
    (Target.contains_nextBelow hinside (Target.positive_ofBinary hpos exponent)
      (Target.gap_ofBinary hpos hlt exponent))

/-- of two shortest decimals at the same distance the rules choose one each, and both lie in the interval -/
example : shortest .up (2 ^ 52) (-77) = ⟨29802322387695313, -24⟩ ∧
    shortest .toEven (2 ^ 52) (-77) = ⟨29802322387695312, -24⟩ := by
  decide +kernel

/-- The lower end of one interval is not above the upper end of another one that shares a number with it,
and below it if one of the mantissas is odd; both ends in quarters of the smaller unit. -/
theorem ends_of_contains_both {k : Nat} (hk : (k : Int) = exponent' - exponent) {x : ℚ}
    (hx : (Target.ofBinary mantissa exponent).Contains x)
    (hx' : (Target.ofBinary mantissa' exponent').Contains x) :
    (4 * mantissa' - Target.reach mantissa' exponent') * 2 ^ k ≤ 4 * mantissa + 2 ∧
      (mantissa % 2 ≠ 0 ∨ mantissa' % 2 ≠ 0 →
        (4 * mantissa' - Target.reach mantissa' exponent') * 2 ^ k < 4 * mantissa + 2) := by
  obtain ⟨-, hhigh, hodd⟩ := Target.contains_ofBinary hx
  obtain ⟨hlow, -, hodd'⟩ := Target.contains_ofBinary hx'
  have hunit : (0 : ℚ) < 2 ^ (exponent - 2) := zpow_pos two_pos _
  have hunits : (2 : ℚ) ^ (exponent' - 2) = (2 ^ k : Nat) * 2 ^ (exponent - 2) := by
    push_cast
    rw [← zpow_natCast, ← zpow_add₀ two_ne_zero]
    congr 1
    omega
  rw [hunits, ← mul_assoc, ← Nat.cast_mul] at hlow hodd'
  generalize (4 * mantissa' - Target.reach mantissa' exponent') * 2 ^ k = low at hlow hodd' ⊢
  constructor
  · exact_mod_cast (mul_le_mul_iff_of_pos_right hunit).mp (hlow.trans hhigh)
  · intro hmantissa
    have hless : (low : ℚ) * 2 ^ (exponent - 2) < (4 * mantissa + 2 : Nat) * 2 ^ (exponent - 2) := by
      rcases hmantissa with hmantissa | hmantissa
      · exact hlow.trans_lt (hodd hmantissa).2
      · exact (hodd' hmantissa).1.trans_le hhigh
    exact_mod_cast (mul_lt_mul_iff_of_pos_right hunit).mp hless

/-- Two doubles do not share a number, if the second is the greater one: between them the intervals have at
most one end in common, and one of the two mantissas is odd then. -/
theorem not_contains_both (h : Binary64.Canonical mantissa exponent)
    (h' : Binary64.Canonical mantissa' exponent')
    (hless : exponent < exponent' ∨ exponent = exponent' ∧ mantissa < mantissa') {x : ℚ}
    (hx : (Target.ofBinary mantissa exponent).Contains x)
    (hx' : (Target.ofBinary mantissa' exponent').Contains x) : False := by
  obtain ⟨k, hk⟩ : ∃ k : Nat, (k : Int) = exponent' - exponent :=
    ⟨(exponent' - exponent).toNat, by omega⟩
  obtain ⟨hle, hlt⟩ := ends_of_contains_both hk hx hx'
  have hreach := Target.reach_le mantissa' exponent'
  have hmantissa := h.mantissa_lt
  have hexponent := h.le_exponent
  rcases hless with hless | ⟨rfl, hless⟩
  · have hleading : 2 ^ 52 ≤ mantissa' := h'.leading.resolve_right (by omega)
    have hdouble : (4 * mantissa' - Target.reach mantissa' exponent') * 2 ≤
        (4 * mantissa' - Target.reach mantissa' exponent') * 2 ^ k :=
      Nat.mul_le_mul_left _ (Nat.le_self_pow (by omega) 2)
    rcases Nat.lt_or_eq_of_le hleading with hgreater | rfl
    · omega
    · have hone : Target.reach (2 ^ 52) exponent' = 1 :=
        if_pos ⟨Binary64.leadingBit_eq.symm, by omega⟩
      rw [hone] at hdouble hle hlt
      by_cases heven : mantissa % 2 = 0
      · omega
      · have := hlt (.inl heven)
        omega
  · obtain rfl : k = 0 := by omega
    rw [Nat.pow_zero, Nat.mul_one] at hle hlt
    by_cases heven : mantissa % 2 = 0
    · by_cases heven' : mantissa' % 2 = 0
      · omega
      · have := hlt (.inr heven')
        omega
    · have := hlt (.inl heven)
      omega

/-- **No number is in the intervals of two doubles.** -/
theorem eq_of_contains (h : Binary64.Canonical mantissa exponent)
    (h' : Binary64.Canonical mantissa' exponent') {x : ℚ}
    (hx : (Target.ofBinary mantissa exponent).Contains x)
    (hx' : (Target.ofBinary mantissa' exponent').Contains x) :
    mantissa = mantissa' ∧ exponent = exponent' := by
  rcases lt_trichotomy exponent exponent' with hlt | rfl | hlt
  · exact (not_contains_both h h' (.inl hlt) hx hx').elim
  · rcases Nat.lt_trichotomy mantissa mantissa' with hlt | rfl | hlt
    · exact (not_contains_both h h' (.inr ⟨rfl, hlt⟩) hx hx').elim
    · exact ⟨rfl, rfl⟩
    · exact (not_contains_both h' h (.inr ⟨rfl, hlt⟩) hx' hx).elim
  · exact (not_contains_both h' h (.inl hlt) hx' hx).elim

end TinyScript.Decimal
