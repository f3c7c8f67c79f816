import TinyScript.Json
import TinyScript.Proofs.Decimal.Shortest
import TinyScript.Proofs.Json.Number

/-!
# Doubles of a document

Every double has one text, a numeral if it is finite and `null` if it is not.

* `magnitude_writePositive`            however its digits are laid out, they are a numeral
* `float?_cases`                       so is the text of every finite double
-/

namespace TinyScript.Json

/-! ### The text of a double -/

theorem Digits.append {ds es : List Char} (hd : Digits ds) (he : ∀ c ∈ es, c.isDigit = true) :
    Digits (ds ++ es) where
  ne_nil := List.append_ne_nil_of_left_ne_nil hd.ne_nil es
  isDigit c hc := (List.mem_append.mp hc).elim (hd.isDigit c) (he c)

theorem Digits.take {ds : List Char} (h : Digits ds) {n : Nat} (hn : 0 < n) :
    Digits (ds.take n) where
  ne_nil := by
    rw [Ne, List.take_eq_nil_iff]
    exact not_or.mpr ⟨Nat.ne_of_gt hn, h.ne_nil⟩
  isDigit c hc := h.isDigit c (List.mem_of_mem_take hc)

theorem Digits.drop {ds : List Char} (h : Digits ds) {n : Nat} (hn : n < ds.length) :
    Digits (ds.drop n) where
  ne_nil hnil := absurd (List.drop_eq_nil_iff.mp hnil) (Nat.not_le_of_lt hn)
  isDigit c hc := h.isDigit c (List.mem_of_mem_drop hc)

theorem isDigit_of_mem_zeros {n : Nat} {c : Char} (h : c ∈ Decimal.Layout.zeros n) :
    c.isDigit = true := by
  rw [List.eq_of_mem_replicate h]
  rfl

theorem head?_take {ds : List Char} {n : Nat} (hn : 0 < n) : (ds.take n).head? = ds.head? := by
  rw [List.head?_take, if_neg (Nat.ne_of_gt hn)]

section Layouts

variable {ds : List Char} (h : Digits ds) (hzero : ds.head? ≠ some '0')

include h hzero in
theorem magnitude_withPoint (point : Int) :
    Magnitude (Decimal.Layout.json.withPoint ds point) := by
  unfold Decimal.Layout.withPoint
  split
  · have hfraction : Digits (Decimal.Layout.zeros (-point).toNat ++ ds) :=
      ⟨List.append_ne_nil_of_right_ne_nil _ h.ne_nil,
        fun c hc => (List.mem_append.mp hc).elim isDigit_of_mem_zeros (h.isDigit c)⟩
    have hm := Magnitude.mk (.inl rfl) (.digits hfraction) .none
    rwa [List.append_nil] at hm
  · next hpos =>
    split
    · have hwhole : Whole (ds ++ Decimal.Layout.zeros (point.toNat - ds.length)) := by
        refine .inr ⟨h.append fun _ => isDigit_of_mem_zeros, ?_⟩
        obtain ⟨d, tail, rfl⟩ := List.exists_cons_of_ne_nil h.ne_nil
        exact hzero
      have hfraction : Digits ['0'] := digits_toDigits 0
      have hm := Magnitude.mk hwhole (.digits hfraction) .none
      rwa [List.append_nil] at hm
    · next hlong =>
      have hn : 0 < point.toNat := by omega
      have hwhole : Whole (ds.take point.toNat) := .inr ⟨h.take hn, by rwa [head?_take hn]⟩
      have hfraction : Digits (ds.drop point.toNat) := h.drop (Nat.lt_of_not_le hlong)
      have hm := Magnitude.mk hwhole (.digits hfraction) .none
      rwa [List.append_nil] at hm

include h hzero in
theorem magnitude_withExponent (point : Int) :
    Magnitude (Decimal.Layout.json.withExponent ds point) := by
  have hexponent : Exponent ('e' :: (if point - 1 < 0 then '-' else '+') ::
      Nat.toDigits 10 (point - 1).natAbs) := by
    refine .signed ?_ (digits_toDigits _)
    split
    · exact .inr rfl
    · exact .inl rfl
  have hsign : (if point - 1 < 0 then ['-'] else
      if Decimal.Layout.json.exponentSign then ['+'] else []) =
      [if point - 1 < 0 then '-' else '+'] := by
    split <;> rfl
  unfold Decimal.Layout.withExponent
  rw [hsign]
  dsimp only
  rw [List.append_assoc]
  split
  · have hm := Magnitude.mk (.inr ⟨h, hzero⟩) .none hexponent
    rwa [List.append_nil] at hm
  · next hlong =>
    have hwhole : Whole (ds.take 1) := .inr ⟨h.take Nat.one_pos, by rwa [head?_take Nat.one_pos]⟩
    exact Magnitude.mk hwhole (.digits (h.drop (Nat.lt_of_not_le hlong))) hexponent

end Layouts

theorem magnitude_writePositive {d : Decimal.Scientific} (h : 0 < d.coefficient) :
    Magnitude (Decimal.Layout.json.writePositive d) := by
  unfold Decimal.Layout.writePositive
  split
  · exact magnitude_withPoint (digits_toDigits _) (head?_toDigits_ne h) _
  · exact magnitude_withExponent (digits_toDigits _) (head?_toDigits_ne h) _

theorem Magnitude.numeral {text : List Char} (h : Magnitude text) (negative : Bool) :
    Numeral ((if negative then ['-'] else []) ++ text) := by
  cases negative with
  | false => exact .plain h
  | true => exact .minus h

/-- **The text of a double is a numeral**, unless it is not finite. -/
theorem float?_cases (x : Float) : Numeral (float? x) ∨ float? x = ['n', 'u', 'l', 'l'] := by
  unfold float?
  split
  · next negative mantissa exponent hx =>
    refine .inl ?_
    rw [Decimal.Layout.write, hx]
    refine Magnitude.numeral ?_ negative
    split
    · exact Magnitude.mk (.inl rfl) (.digits (digits_toDigits 0)) .none
    · next hne =>
      exact magnitude_writePositive
        (Decimal.shortest_coefficient_pos _ (Nat.pos_of_ne_zero hne) exponent)
  · exact .inr rfl

end TinyScript.Json
