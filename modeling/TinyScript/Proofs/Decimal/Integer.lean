import TinyScript.Decimal.Integer

/-!
# Integers are read back

* `signedNumber`            the integer that digits with or without a sign stand for
* `integer_injective`       no two integers have the same decimal
* `not_mem_integerDigits`   nothing but digits and the minus sign is written
* `isDecimal_integerDigits` there is no zero in front, and a minus sign only if the integer is negative
-/

namespace TinyScript.Decimal

theorem not_mem_digits {c : Char} (hc : c.isDigit = false) (n : Nat) : c ∉ Nat.toDigits 10 n :=
  fun h => absurd (Nat.isDigit_of_mem_toDigits (by decide) (by decide) h) (by rw [hc]; decide)

theorem not_mem_integerDigits {c : Char} (hc : c.isDigit = false) (hminus : c ≠ '-') (n : Int) :
    c ∉ integerDigits n := by
  unfold integerDigits
  split
  · exact List.not_mem_cons_of_ne_of_not_mem hminus (not_mem_digits hc _)
  · exact not_mem_digits hc _

def signedNumber : List Char → Int
  | '-' :: cs => -(Nat.ofDigitChars 10 cs 0 : Int)
  | '+' :: cs => Nat.ofDigitChars 10 cs 0
  | cs => Nat.ofDigitChars 10 cs 0

theorem signedNumber_toDigits (n : Nat) : signedNumber (Nat.toDigits 10 n) = n := by
  have hminus : '-' ∉ Nat.toDigits 10 n := not_mem_digits rfl n
  have hplus : '+' ∉ Nat.toDigits 10 n := not_mem_digits rfl n
  have hnumber : Nat.ofDigitChars 10 (Nat.toDigits 10 n) 0 = n := Nat.ofDigitChars_ten_toDigits
  unfold signedNumber
  split
  · next heq => exact absurd (heq ▸ List.mem_cons_self) hminus
  · next heq => exact absurd (heq ▸ List.mem_cons_self) hplus
  · rw [hnumber]

theorem signedNumber_minus (n : Nat) : signedNumber ('-' :: Nat.toDigits 10 n) = -n := by
  show -(Nat.ofDigitChars 10 (Nat.toDigits 10 n) 0 : Int) = -n
  rw [Nat.ofDigitChars_ten_toDigits]

theorem signedNumber_plus (n : Nat) : signedNumber ('+' :: Nat.toDigits 10 n) = n := by
  show (Nat.ofDigitChars 10 (Nat.toDigits 10 n) 0 : Int) = n
  rw [Nat.ofDigitChars_ten_toDigits]

theorem signedNumber_integerDigits (n : Int) : signedNumber (integerDigits n) = n := by
  unfold integerDigits
  split
  · rw [signedNumber_minus]
    omega
  · rw [signedNumber_toDigits]
    omega

/-- No two integers have the same decimal. -/
theorem integer_injective {m n : Int} (h : integer m = integer n) : m = n := by
  have hdigits : integerDigits m = integerDigits n := String.ofList_injective h
  rw [← signedNumber_integerDigits m, hdigits, signedNumber_integerDigits]

/-! ### The form of a decimal -/

/-- A minus sign for a negative integer, and then the digits of its magnitude.  A zero stands in front only
if it is the only digit. -/
def IsDecimal (n : Int) (cs : List Char) : Prop :=
  ∃ ds, cs = (if n < 0 then '-' :: ds else ds) ∧ ds ≠ [] ∧ (∀ c ∈ ds, c.isDigit) ∧
    Nat.ofDigitChars 10 ds 0 = n.natAbs ∧ (ds.head? = some '0' → ds = ['0'])

theorem toDigits_of_head? {n : Nat} (h : (Nat.toDigits 10 n).head? = some '0') :
    Nat.toDigits 10 n = ['0'] := by
  induction n using Nat.strongRecOn with
  | ind n ih =>
    rcases Nat.lt_or_ge n 10 with hlt | hge
    · rw [Nat.toDigits_of_lt_base hlt] at h ⊢
      rw [Option.some.inj h]
    · -- the first digit is that of a smaller number, which is not zero
      have hfirst : (Nat.toDigits 10 (n / 10)).head? = some '0' := by
        obtain ⟨c, cs, hcs⟩ := List.exists_cons_of_ne_nil (Nat.toDigits_ne_nil (n := n / 10) (b := 10))
        rw [Nat.toDigits_of_base_le (by decide) hge, hcs] at h
        rw [hcs]
        exact h
      have hquot : n / 10 = 0 := by
        rw [← Nat.ofDigitChars_ten_toDigits (n := n / 10), ih (n / 10) (by omega) hfirst]
        rfl
      omega

theorem isDecimal_integerDigits (n : Int) : IsDecimal n (integerDigits n) :=
  ⟨Nat.toDigits 10 n.natAbs, rfl, Nat.toDigits_ne_nil,
    fun _ hc => Nat.isDigit_of_mem_toDigits (by decide) (by decide) hc,
    Nat.ofDigitChars_ten_toDigits, toDigits_of_head?⟩

end TinyScript.Decimal
