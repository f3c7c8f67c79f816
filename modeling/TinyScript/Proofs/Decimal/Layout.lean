import Mathlib.Data.List.TakeWhile
import TinyScript.Decimal.Layout
import TinyScript.Proofs.Decimal.Integer
import TinyScript.Proofs.Decimal.Interval
import TinyScript.Proofs.Text.Spans

/-!
# The text of a double says which double it is

However the digits of a decimal are laid out, the decimal can be read back from its text.  As the decimal
is in the interval of one double only, no two doubles have the same text.

* `Layout.number`               the number that a text without a sign stands for
* `Layout.number_writePositive` what is written is read back
* `Layout.text_injective`       no two doubles have the same text, in any layout
* `Layout.not_mem_write`        which characters a text can have
-/

namespace TinyScript.Decimal

namespace Layout

/-! ### Reading a decimal -/

/-- the number of some digits with a point among them -/
def fixed (cs : List Char) : ℚ :=
  Nat.ofDigitChars 10 (cs.filter (· != '.')) 0 * 10 ^ (-((cs.dropWhile (· != '.')).tail.length : Int))

/-- the number of a text that may have an exponent behind an `e` -/
def number (cs : List Char) : ℚ :=
  fixed (cs.takeWhile (· != 'e')) * 10 ^ signedNumber (cs.dropWhile (· != 'e')).tail

theorem filter_eq_self {c : Char} {cs : List Char} (h : c ∉ cs) : cs.filter (· != c) = cs :=
  List.filter_eq_self.mpr (bne_of_not_mem h)

theorem fixed_of_whole {ds : List Char} (h : '.' ∉ ds) : fixed ds = Nat.ofDigitChars 10 ds 0 := by
  rw [fixed, filter_eq_self h, List.dropWhile_eq_nil_iff.mpr (bne_of_not_mem h)]
  simp

theorem fixed_of_point {whole fraction : List Char} (hw : '.' ∉ whole) (hf : '.' ∉ fraction) :
    fixed (whole ++ '.' :: fraction) =
      Nat.ofDigitChars 10 (whole ++ fraction) 0 * 10 ^ (-(fraction.length : Int)) := by
  rw [fixed, dropWhile_span (bne_of_not_mem hw) (by simp), List.filter_append, filter_eq_self hw,
    List.filter_cons_of_neg (by simp), filter_eq_self hf, List.tail_cons]

theorem number_of_fixed {cs : List Char} (h : 'e' ∉ cs) : number cs = fixed cs := by
  rw [number, List.takeWhile_eq_self_iff.mpr (bne_of_not_mem h),
    List.dropWhile_eq_nil_iff.mpr (bne_of_not_mem h)]
  simp [signedNumber]

theorem number_of_exponent {cs : List Char} (h : 'e' ∉ cs) (exponent : List Char) :
    number (cs ++ 'e' :: exponent) = fixed cs * 10 ^ signedNumber exponent := by
  rw [number, takeWhile_span (bne_of_not_mem h) (by simp), dropWhile_span (bne_of_not_mem h) (by simp),
    List.tail_cons]

/-! ### Digits -/

theorem not_mem_zeros {c : Char} (hc : c ≠ '0') (n : Nat) : c ∉ zeros n :=
  fun h => hc (List.eq_of_mem_replicate h)

variable {d : Scientific} (l : Layout)

theorem ofDigitChars_digits (d : Scientific) : Nat.ofDigitChars 10 d.digits 0 = d.coefficient :=
  Nat.ofDigitChars_ten_toDigits

theorem ofDigitChars_zero (n : Nat) : Nat.ofDigitChars 10 ['0'] n = 10 * n := by
  rw [Nat.ofDigitChars_cons, Nat.ofDigitChars_nil]
  exact Nat.add_zero _

theorem not_mem_point {whole fraction : List Char} (hw : 'e' ∉ whole) (hf : 'e' ∉ fraction) :
    'e' ∉ whole ++ '.' :: fraction := by
  simp [hw, hf]

/-- The digits around a point at any place, without the exponent. -/
theorem fixed_split (d : Scientific) (n : Nat) :
    fixed (d.digits.take n ++ '.' :: d.digits.drop n) =
      d.coefficient * 10 ^ (-((d.digits.length - n : Nat) : Int)) := by
  have hpoint : '.' ∉ d.digits := not_mem_digits rfl _
  rw [fixed_of_point (fun h => hpoint (List.mem_of_mem_take h)) fun h => hpoint (List.mem_of_mem_drop h),
    List.take_append_drop, ofDigitChars_digits, List.length_drop]

theorem not_mem_split (d : Scientific) (n : Nat) : 'e' ∉ d.digits.take n ++ '.' :: d.digits.drop n := by
  have he : 'e' ∉ d.digits := not_mem_digits rfl _
  exact not_mem_point (fun h => he (List.mem_of_mem_take h)) fun h => he (List.mem_of_mem_drop h)

theorem point_eq (d : Scientific) : d.point = d.digits.length + d.exponent := rfl

theorem number_leadingZeros {d : Scientific} (h : d.point ≤ 0) :
    number ('0' :: '.' :: zeros (-d.point).toNat ++ d.digits) = d.value := by
  have hpoint : '.' ∉ zeros (-d.point).toNat ++ d.digits :=
    List.not_mem_append (not_mem_zeros (by decide) _) (not_mem_digits rfl _)
  have he : 'e' ∉ zeros (-d.point).toNat ++ d.digits :=
    List.not_mem_append (not_mem_zeros (by decide) _) (not_mem_digits rfl _)
  have hnumber : Nat.ofDigitChars 10 (['0'] ++ (zeros (-d.point).toNat ++ d.digits)) 0 =
      d.coefficient := by
    rw [Nat.ofDigitChars_append, Nat.ofDigitChars_append, zeros, Nat.ofDigitChars_replicate_zero]
    exact ofDigitChars_digits d
  have htext : '0' :: '.' :: zeros (-d.point).toNat ++ d.digits =
      ['0'] ++ '.' :: (zeros (-d.point).toNat ++ d.digits) := rfl
  have hexponent := point_eq d
  rw [htext, number_of_fixed (not_mem_point (by decide) he), fixed_of_point (by decide) hpoint, hnumber,
    Scientific.value]
  congr 2
  rw [List.length_append, zeros, List.length_replicate]
  omega

/-- A whole number is the same with a zero behind the point. -/
theorem number_trailingZeros {d : Scientific} (hpositive : ¬ d.point ≤ 0)
    (hlong : d.digits.length ≤ d.point.toNat) (pointZero : Bool) :
    number (d.digits ++ zeros (d.point.toNat - d.digits.length) ++
      if pointZero then ['.', '0'] else []) = d.value := by
  have hexponent := point_eq d
  have hpoint : '.' ∉ d.digits ++ zeros (d.point.toNat - d.digits.length) :=
    List.not_mem_append (not_mem_digits rfl _) (not_mem_zeros (by decide) _)
  have he : 'e' ∉ d.digits ++ zeros (d.point.toNat - d.digits.length) :=
    List.not_mem_append (not_mem_digits rfl _) (not_mem_zeros (by decide) _)
  have hcoefficient : Nat.ofDigitChars 10 (d.digits ++ zeros (d.point.toNat - d.digits.length)) 0 =
      10 ^ d.exponent.toNat * d.coefficient := by
    have hlength : d.point.toNat - d.digits.length = d.exponent.toNat := by omega
    rw [Nat.ofDigitChars_append, hlength, zeros, Nat.ofDigitChars_replicate_zero, ofDigitChars_digits]
  have hvalue : d.value = (10 ^ d.exponent.toNat * d.coefficient : Nat) := by
    have hnonneg : d.exponent = (d.exponent.toNat : Int) := by omega
    rw [Scientific.value, hnonneg, zpow_natCast, mul_comm]
    push_cast
    rw [Int.toNat_natCast]
  split
  · rw [number_of_fixed (not_mem_point he (by decide)), fixed_of_point hpoint (by decide),
      Nat.ofDigitChars_append, hcoefficient, hvalue, ofDigitChars_zero, Nat.cast_mul, Nat.cast_ofNat,
      List.length_singleton, Nat.cast_one, zpow_neg_one, mul_comm (10 : ℚ), mul_assoc,
      mul_inv_cancel₀ (by norm_num), mul_one]
  · rw [List.append_nil, number_of_fixed he, fixed_of_whole hpoint, hcoefficient, hvalue]

theorem number_withPoint (d : Scientific) : number (l.withPoint d.digits d.point) = d.value := by
  have hexponent := point_eq d
  unfold withPoint
  split
  · next hnonpos => exact number_leadingZeros hnonpos
  · next hpositive =>
    split
    · next hlong => exact number_trailingZeros hpositive hlong l.pointZero
    · rw [number_of_fixed (not_mem_split d _), fixed_split, Scientific.value]
      congr 2
      omega

theorem number_withExponent (d : Scientific) :
    number (l.withExponent d.digits d.point) = d.value := by
  have hpoint : '.' ∉ d.digits := not_mem_digits rfl _
  have he : 'e' ∉ d.digits := not_mem_digits rfl _
  have hexponent := point_eq d
  have hlength : 0 < d.digits.length := Nat.length_toDigits_pos
  unfold withExponent
  extract_lets mantissa sign
  have hsigned : signedNumber (sign ++ Nat.toDigits 10 (d.point - 1).natAbs) = d.point - 1 := by
    simp only [sign]
    split
    · rw [List.singleton_append, signedNumber_minus]
      omega
    · split
      · rw [List.singleton_append, signedNumber_plus]
        omega
      · rw [List.nil_append, signedNumber_toDigits]
        omega
  have hmantissa : 'e' ∉ mantissa ∧
      fixed mantissa = d.coefficient * 10 ^ (-((d.digits.length - 1 : Nat) : Int)) := by
    simp only [mantissa]
    split
    · next hshort =>
      have hone : d.digits.length - 1 = 0 := by omega
      exact ⟨he, by rw [fixed_of_whole hpoint, ofDigitChars_digits, hone]; simp⟩
    · exact ⟨not_mem_split d 1, fixed_split d 1⟩
  rw [List.append_assoc, List.cons_append, number_of_exponent hmantissa.1, hmantissa.2, hsigned,
    Scientific.value, mul_assoc, ← zpow_add₀ (by norm_num)]
  congr 2
  omega

theorem number_writePositive (d : Scientific) : number (l.writePositive d) = d.value := by
  unfold writePositive
  split
  · exact number_withPoint l d
  · exact number_withExponent l d

/-! ### Signs -/

/-- the text starts with a digit -/
def StartsWithDigit (cs : List Char) : Prop := ∃ c rest, cs = c :: rest ∧ c.isDigit = true

theorem startsWithDigit_writePositive (d : Scientific) : StartsWithDigit (l.writePositive d) := by
  obtain ⟨c, rest, hdigits⟩ : ∃ c rest, d.digits = c :: rest :=
    List.exists_cons_of_ne_nil Nat.toDigits_ne_nil
  have hc : c.isDigit = true := by
    refine Nat.isDigit_of_mem_toDigits (b := 10) (n := d.coefficient) (by decide) (by decide) ?_
    rw [show Nat.toDigits 10 d.coefficient = c :: rest from hdigits]
    exact List.mem_cons_self
  unfold writePositive
  split
  · unfold withPoint
    split
    · exact ⟨'0', _, rfl, rfl⟩
    · split
      · exact ⟨c, _, by rw [hdigits]; rfl, hc⟩
      · next hpositive _ =>
        obtain ⟨n, hn⟩ : ∃ n, d.point.toNat = n + 1 := ⟨d.point.toNat - 1, by omega⟩
        exact ⟨c, _, by rw [hdigits, hn]; rfl, hc⟩
  · unfold withExponent
    extract_lets mantissa sign
    have hmantissa : StartsWithDigit mantissa := by
      simp only [mantissa]
      split
      · exact ⟨c, rest, hdigits, hc⟩
      · exact ⟨c, _, by rw [hdigits]; rfl, hc⟩
    obtain ⟨c', rest', heq, hc'⟩ := hmantissa
    exact ⟨c', _, by rw [heq]; rfl, hc'⟩

/-- the text of a number without its sign -/
def magnitude : Binary64 → List Char
  | .nan => ['N', 'a', 'N']
  | .infinite _ => ['i', 'n', 'f']
  | .finite _ mantissa exponent =>
    if mantissa = 0 then '0' :: (if l.pointZero then ['.', '0'] else [])
    else l.writePositive (shortest l.tie mantissa exponent)

def negative : Binary64 → Bool
  | .nan => false
  | .infinite negative | .finite negative _ _ => negative

theorem write_eq (x : Float) : l.write x =
    (if negative (Binary64.ofFloat x) then ['-'] else []) ++ l.magnitude (Binary64.ofFloat x) := by
  unfold write
  cases Binary64.ofFloat x <;> rfl

/-- the characters of a text other than digits -/
def marks : List Char := ['-', '+', '.', 'e', 'N', 'a', 'i', 'n', 'f']

section

variable {c : Char} (hdigit : c.isDigit = false) (hmarks : c ∉ marks)

include hdigit hmarks

theorem not_mem_withPoint (d : Scientific) : c ∉ l.withPoint d.digits d.point := by
  have hpoint : c ≠ '.' := fun h => hmarks (h ▸ by decide)
  have hzero : c ≠ '0' := fun h => absurd (h ▸ hdigit) (by decide)
  have hdigits : c ∉ d.digits := not_mem_digits hdigit _
  have htake : c ∉ d.digits.take d.point.toNat := fun h => hdigits (List.mem_of_mem_take h)
  have hdrop : c ∉ d.digits.drop d.point.toNat := fun h => hdigits (List.mem_of_mem_drop h)
  unfold withPoint
  split
  · simp [hpoint, hzero, hdigits, not_mem_zeros hzero]
  · split
    · split <;> simp [hpoint, hzero, hdigits, not_mem_zeros hzero]
    · simp [hpoint, htake, hdrop]

theorem not_mem_withExponent (d : Scientific) : c ∉ l.withExponent d.digits d.point := by
  have hpoint : c ≠ '.' := fun h => hmarks (h ▸ by decide)
  have he : c ≠ 'e' := fun h => hmarks (h ▸ by decide)
  have hminus : c ≠ '-' := fun h => hmarks (h ▸ by decide)
  have hplus : c ≠ '+' := fun h => hmarks (h ▸ by decide)
  have hdigits : c ∉ d.digits := not_mem_digits hdigit _
  have hexponent : c ∉ Nat.toDigits 10 (d.point - 1).natAbs := not_mem_digits hdigit _
  have htake : c ∉ d.digits.take 1 := fun h => hdigits (List.mem_of_mem_take h)
  have hdrop : c ∉ d.digits.drop 1 := fun h => hdigits (List.mem_of_mem_drop h)
  unfold withExponent
  extract_lets mantissa sign
  have hmantissa : c ∉ mantissa := by
    simp only [mantissa]
    split
    · exact hdigits
    · exact List.not_mem_append htake (List.not_mem_cons_of_ne_of_not_mem hpoint hdrop)
  have hsign : c ∉ sign := by
    simp only [sign]
    split
    · simp [hminus]
    · split <;> simp [hplus]
  simp [hmantissa, hsign, he, hexponent]

theorem not_mem_magnitude (b : Binary64) : c ∉ l.magnitude b := by
  have hnan : ['N', 'a', 'N'] ⊆ marks := by decide
  have hinf : ['i', 'n', 'f'] ⊆ marks := by decide
  have hpoint : c ≠ '.' := fun h => hmarks (h ▸ by decide)
  have hzero : c ≠ '0' := fun h => absurd (h ▸ hdigit) (by decide)
  cases b with
  | nan => exact fun h => hmarks (hnan h)
  | infinite _ => exact fun h => hmarks (hinf h)
  | finite n mantissa exponent =>
    show c ∉ if mantissa = 0 then _ else l.writePositive _
    split
    · split <;> simp [hpoint, hzero]
    · unfold writePositive
      split
      · exact not_mem_withPoint l hdigit hmarks _
      · exact not_mem_withExponent l hdigit hmarks _

/-- Nothing but digits and marks is written. -/
theorem not_mem_write (x : Float) : c ∉ l.write x := by
  have hminus : c ≠ '-' := fun h => hmarks (h ▸ by decide)
  rw [write_eq]
  refine List.not_mem_append ?_ (not_mem_magnitude l hdigit hmarks _)
  split <;> simp [hminus]

end

theorem startsWithDigit_magnitude (n : Bool) (mantissa : Nat) (exponent : Int) :
    StartsWithDigit (l.magnitude (.finite n mantissa exponent)) := by
  show StartsWithDigit (if mantissa = 0 then _ else _)
  split
  · exact ⟨'0', _, rfl, rfl⟩
  · exact startsWithDigit_writePositive l _

theorem StartsWithDigit.head?_ne {cs : List Char} (h : StartsWithDigit cs) {c : Char}
    (hc : c.isDigit = false) : cs.head? ≠ some c := by
  obtain ⟨d, rest, rfl, hd⟩ := h
  intro heq
  rw [Option.some.inj heq, hc] at hd
  cases hd

theorem head?_magnitude (b : Binary64) : (l.magnitude b).head? ≠ some '-' := by
  cases b with
  | nan => exact nofun
  | infinite _ => exact nofun
  | finite n mantissa exponent => exact (startsWithDigit_magnitude l n mantissa exponent).head?_ne rfl

/-- A text with its sign says what the sign is. -/
theorem eq_of_signed {n n' : Bool} {cs cs' : List Char} (hcs : cs.head? ≠ some '-')
    (hcs' : cs'.head? ≠ some '-')
    (h : (if n then ['-'] else []) ++ cs = (if n' then ['-'] else []) ++ cs') : n = n' ∧ cs = cs' := by
  cases n <;> cases n'
  · exact ⟨rfl, h⟩
  · exact absurd (congrArg List.head? h) hcs
  · exact absurd (congrArg List.head? h).symm hcs'
  · exact ⟨rfl, List.tail_eq_of_cons_eq h⟩

theorem number_zero : number ('0' :: (if l.pointZero then ['.', '0'] else [])) = 0 := by
  have hfixed : fixed ['0', '.', '0'] = 0 ∧ fixed ['0'] = 0 := by
    constructor <;> simp [fixed, Nat.ofDigitChars_cons]
  split
  · rw [number_of_fixed (by decide)]
    exact hfixed.1
  · rw [number_of_fixed (by decide)]
    exact hfixed.2

theorem value_shortest_pos (tie : Tie) {mantissa : Nat} (h : 0 < mantissa) (exponent : Int) :
    0 < (shortest tie mantissa exponent).value :=
  mul_pos (Nat.cast_pos.mpr (shortest_coefficient_pos tie h exponent)) (zpow_pos (by norm_num) _)

/-- Texts of the same digits come from the same mantissa and exponent. -/
theorem eq_of_magnitude {n n' : Bool} {mantissa mantissa' : Nat} {exponent exponent' : Int}
    (hc : Binary64.Canonical mantissa exponent) (hc' : Binary64.Canonical mantissa' exponent')
    (h : l.magnitude (.finite n mantissa exponent) = l.magnitude (.finite n' mantissa' exponent')) :
    mantissa = mantissa' ∧ exponent = exponent' := by
  have hnumber (m : Nat) (e : Int) : number (l.magnitude (.finite n m e)) =
      if m = 0 then 0 else (shortest l.tie m e).value := by
    show number (if m = 0 then _ else _) = _
    split
    · exact number_zero l
    · exact number_writePositive l _
  have hvalue : (if mantissa = 0 then 0 else (shortest l.tie mantissa exponent).value) =
      if mantissa' = 0 then 0 else (shortest l.tie mantissa' exponent').value := by
    rw [← hnumber, ← hnumber]
    exact congrArg number h
  rcases Nat.eq_zero_or_pos mantissa with rfl | hpos <;>
    rcases Nat.eq_zero_or_pos mantissa' with rfl | hpos'
  · exact ⟨rfl, (hc.leading.resolve_left (by decide)).trans (hc'.leading.resolve_left (by decide)).symm⟩
  · rw [if_pos rfl, if_neg (Nat.ne_of_gt hpos')] at hvalue
    exact absurd hvalue (value_shortest_pos _ hpos' _).ne
  · rw [if_pos rfl, if_neg (Nat.ne_of_gt hpos)] at hvalue
    exact absurd hvalue (value_shortest_pos _ hpos _).ne'
  · rw [if_neg (Nat.ne_of_gt hpos), if_neg (Nat.ne_of_gt hpos')] at hvalue
    exact eq_of_contains hc hc' (contains_shortest l.tie hpos hc.mantissa_lt exponent)
      (hvalue ▸ contains_shortest l.tie hpos' hc'.mantissa_lt exponent')

/-- A number is told by its sign and its digits; what is not finite starts with no digit. -/
theorem eq_of_negative_of_magnitude {a b : Binary64}
    (ha : ∀ n m e, a = .finite n m e → Binary64.Canonical m e)
    (hb : ∀ n m e, b = .finite n m e → Binary64.Canonical m e) (hnegative : negative a = negative b)
    (h : l.magnitude a = l.magnitude b) : a = b := by
  have hhead := congrArg List.head? h
  cases a with
  | nan =>
    cases b with
    | nan => rfl
    | infinite n => cases hhead
    | finite n m e => exact absurd hhead.symm ((startsWithDigit_magnitude l n m e).head?_ne rfl)
  | infinite n =>
    cases b with
    | nan => cases hhead
    | infinite n' => exact congrArg Binary64.infinite hnegative
    | finite n' m e => exact absurd hhead.symm ((startsWithDigit_magnitude l n' m e).head?_ne rfl)
  | finite n m e =>
    cases b with
    | nan => exact absurd hhead ((startsWithDigit_magnitude l n m e).head?_ne rfl)
    | infinite n' => exact absurd hhead ((startsWithDigit_magnitude l n m e).head?_ne rfl)
    | finite n' m' e' =>
      obtain ⟨rfl, rfl⟩ := eq_of_magnitude l (ha n m e rfl) (hb n' m' e' rfl) h
      exact congrArg (Binary64.finite · m e) hnegative

/-- **No two doubles have the same text**, in any layout. -/
theorem text_injective {x y : Float} (h : l.text x = l.text y) : x = y := by
  have hwrite : l.write x = l.write y := String.ofList_injective h
  rw [write_eq, write_eq] at hwrite
  obtain ⟨hnegative, hmagnitude⟩ := eq_of_signed (head?_magnitude l _) (head?_magnitude l _) hwrite
  exact Binary64.ofFloat_injective (eq_of_negative_of_magnitude l
    (fun _ _ _ => Binary64.canonical_of_ofBits) (fun _ _ _ => Binary64.canonical_of_ofBits)
    hnegative hmagnitude)

/-- the layouts differ in where an exponent starts to be written and how -/
example : inspected.text 1e16 = "1e16" ∧ json.text 1e16 = "1e+16" ∧ plain.text 1e-7 = "0.0000001" := by
  decide +kernel

end Layout

end TinyScript.Decimal
