import TinyScript.Decimal.Integer
import TinyScript.Proofs.Json.Text
import TinyScript.Proofs.Text.Spans

/-!
# Numbers of a document

A number ends where a character follows that cannot go on with it, so what is read does not depend on
what stands behind the number.

* `Numeral`                the texts that are numbers: a whole part, and perhaps a fraction and an
                           exponent with its sign
* `Delimited`              what may stand behind a number
* `number_alone`           a numeral is read to its end, whatever delimited text follows
* `number_integerDigits`   the decimal of a number that fits 64 bits is read back as the number
-/

namespace TinyScript.Json

/-! ### Numerals -/

structure Digits (ds : List Char) : Prop where
  ne_nil : ds ≠ []
  isDigit : ∀ c ∈ ds, c.isDigit = true

/-- a zero alone, or digits of which the first is not zero -/
def Whole (ds : List Char) : Prop := ds = ['0'] ∨ Digits ds ∧ ds.head? ≠ some '0'

inductive Fraction : List Char → Prop
  | none : Fraction []
  | digits {ds : List Char} (h : Digits ds) : Fraction ('.' :: ds)

inductive Exponent : List Char → Prop
  | none : Exponent []
  | signed {sign : Char} {ds : List Char} (hs : sign = '+' ∨ sign = '-') (h : Digits ds) :
      Exponent ('e' :: sign :: ds)

/-- a number without its sign -/
inductive Magnitude : List Char → Prop
  | mk {whole fraction exponent : List Char} (hw : Whole whole) (hf : Fraction fraction)
      (he : Exponent exponent) : Magnitude (whole ++ fraction ++ exponent)

inductive Numeral : List Char → Prop
  | plain {text : List Char} (h : Magnitude text) : Numeral text
  | minus {text : List Char} (h : Magnitude text) : Numeral ('-' :: text)

/-! ### Ends of numbers -/

def continuesNumber (c : Char) : Bool := c.isDigit || c == '.' || c == 'e' || c == 'E'

/-- what cannot be taken for more of a number in front of it -/
def Delimited (rest : List Char) : Prop := ∀ c ∈ rest.head?, continuesNumber c = false

/-- what cannot be taken for more digits -/
def NoDigit (rest : List Char) : Prop := ∀ c ∈ rest.head?, c.isDigit = false

theorem delimited_cons {c : Char} (h : continuesNumber c = false) (cs : List Char) :
    Delimited (c :: cs) := fun _ hc => Option.some.inj hc ▸ h

theorem noDigit_cons {c : Char} (h : c.isDigit = false) (cs : List Char) : NoDigit (c :: cs) :=
  fun _ hc => Option.some.inj hc ▸ h

theorem Delimited.noDigit {rest : List Char} (h : Delimited rest) : NoDigit rest := by
  intro c hc
  have hd := h c hc
  simp only [continuesNumber, Bool.or_eq_false_iff] at hd
  exact hd.1.1.1

theorem Exponent.noDigit {exponent : List Char} (he : Exponent exponent) {rest : List Char}
    (hr : Delimited rest) : NoDigit (exponent ++ rest) := by
  cases he with
  | none => exact hr.noDigit
  | signed hs hd => exact noDigit_cons rfl _

theorem Fraction.noDigit {fraction : List Char} (hf : Fraction fraction) {rest : List Char}
    (hr : NoDigit rest) : NoDigit (fraction ++ rest) := by
  cases hf with
  | none => exact hr
  | digits hd => exact noDigit_cons rfl _

/-! ### Digits -/

theorem someDigits_append {ds rest : List Char} (h : Digits ds) (hr : NoDigit rest) :
    someDigits (ds ++ rest) = .ok (ds, rest) := by
  obtain ⟨d, tail, rfl⟩ := List.exists_cons_of_ne_nil h.ne_nil
  have hd : d.isDigit = true := h.isDigit d List.mem_cons_self
  show (if d.isDigit then Except.ok (((d :: tail) ++ rest).takeWhile Char.isDigit,
    ((d :: tail) ++ rest).dropWhile Char.isDigit) else Except.error Fault.invalidNumber) = _
  rw [if_pos hd, takeWhile_span h.isDigit hr, dropWhile_span h.isDigit hr]

theorem wholeDigits_append {ds rest : List Char} (h : Whole ds) (hr : NoDigit rest) :
    wholeDigits (ds ++ rest) = .ok (ds, rest) := by
  rcases h with rfl | ⟨h, hzero⟩
  · cases rest with
    | nil => rfl
    | cons c rest =>
      show (if c.isDigit then Except.error Fault.invalidNumber else .ok (['0'], c :: rest)) = _
      rw [hr c rfl]
      rfl
  · obtain ⟨d, tail, rfl⟩ := List.exists_cons_of_ne_nil h.ne_nil
    have hd : d.isDigit = true := h.isDigit d List.mem_cons_self
    have htail : ∀ c ∈ tail, c.isDigit = true := fun c hc => h.isDigit c (List.mem_cons_of_mem _ hc)
    have hne : d ≠ '0' := fun he => hzero (congrArg some he)
    rw [List.cons_append, wholeDigits]
    · rw [if_pos hd, takeWhile_span htail hr, dropWhile_span htail hr]
    all_goals simp [hne]

/-! ### What is read does not depend on what follows -/

/-- The outcome of reading a text is the same in front of every rest that is delimited. -/
def ReadAlone {α : Type} (read : Reader α) (text : List Char) : Prop :=
  ∃ outcome : Except Fault α, ∀ rest, Delimited rest →
    read (text ++ rest) = outcome.map fun a => (a, rest)

/-- the number that the digits behind the sign of an exponent stand for -/
def shift (sign : Char) (ds : List Char) : Int :=
  if sign = '-' then -(Nat.ofDigitChars 10 ds 0 : Int) else Nat.ofDigitChars 10 ds 0

theorem exponentPart_append {sign : Char} {ds rest : List Char} (hs : sign = '+' ∨ sign = '-')
    (h : Digits ds) (hr : Delimited rest) :
    exponentPart (sign :: ds ++ rest) = .ok (shift sign ds, rest) := by
  rcases hs with rfl | rfl
  · show (someDigits (ds ++ rest)).map _ = _
    rw [someDigits_append h hr.noDigit]
    rfl
  · show (someDigits (ds ++ rest)).map _ = _
    rw [someDigits_append h hr.noDigit]
    rfl

theorem realTail_of_delimited (negative : Bool) (significand : Nat) (exponent : Int)
    {rest : List Char} (hr : Delimited rest) :
    realTail negative significand exponent rest =
      ((scaled significand exponent).map (signedReal negative)).map fun n => (n, rest) := by
  unfold realTail
  split
  · exact absurd (hr 'e' rfl) (by decide)
  · exact absurd (hr 'E' rfl) (by decide)
  · cases scaled significand exponent <;> rfl

theorem realTail_alone (negative : Bool) (significand : Nat) (exponent : Int) {text : List Char}
    (h : Exponent text) : ReadAlone (realTail negative significand exponent) text := by
  cases h with
  | none => exact ⟨_, fun rest hr => realTail_of_delimited negative significand exponent hr⟩
  | @signed sign ds hs hd =>
    refine ⟨(scaled significand (exponent + shift sign ds)).map (signedReal negative),
      fun rest hr => ?_⟩
    rw [List.cons_append, realTail, exponentPart_append hs hd hr]
    show (scaled significand (exponent + shift sign ds) >>= _) = _
    cases scaled significand (exponent + shift sign ds) <;> rfl

/-- A whole part alone is a whole number, unless it is too long. -/
theorem unsigned_whole (negative : Bool) {whole rest : List Char} (hw : Whole whole)
    (hr : Delimited rest) :
    unsigned negative (whole ++ rest) =
      if (accumulate 0 whole).2 = 0 then .ok (wholeOrReal negative (accumulate 0 whole).1, rest)
      else realTail negative (accumulate 0 whole).1 (accumulate 0 whole).2 rest := by
  rw [unsigned, wholeDigits_append hw hr.noDigit]
  cases rest with
  | nil => rfl
  | cons c rest =>
    have hc := hr c rfl
    dsimp only [bind, Except.bind]
    split
    · next h => cases h; cases hc
    · next h => cases h; cases hc
    · next h => cases h; cases hc
    · rfl

theorem unsigned_fraction (negative : Bool) {whole ds rest : List Char} (hw : Whole whole)
    (hd : Digits ds) (hr : NoDigit rest) :
    unsigned negative (whole ++ '.' :: (ds ++ rest)) =
      realTail negative (accumulate (accumulate 0 whole).1 ds).1
        ((accumulate 0 whole).2 - (ds.length - (accumulate (accumulate 0 whole).1 ds).2 : Nat))
        rest := by
  rw [unsigned, wholeDigits_append hw (noDigit_cons rfl _)]
  show (someDigits (ds ++ rest) >>= _) = _
  rw [someDigits_append hd hr]
  rfl

theorem unsigned_exponent (negative : Bool) {whole cs : List Char} (hw : Whole whole) :
    unsigned negative (whole ++ 'e' :: cs) =
      realTail negative (accumulate 0 whole).1 (accumulate 0 whole).2 ('e' :: cs) := by
  rw [unsigned, wholeDigits_append hw (noDigit_cons rfl _)]
  rfl

theorem unsigned_alone (negative : Bool) {text : List Char} (h : Magnitude text) :
    ReadAlone (unsigned negative) text := by
  obtain @⟨whole, fraction, exponent, hw, hf, he⟩ := h
  cases hf with
  | digits hd =>
    obtain ⟨outcome, ho⟩ := realTail_alone negative _ _ he
    refine ⟨outcome, fun rest hr => ?_⟩
    rw [List.append_assoc, List.append_assoc, List.cons_append,
      unsigned_fraction negative hw hd (he.noDigit hr), ho rest hr]
  | none =>
    rw [List.append_nil]
    cases he with
    | none =>
      rw [List.append_nil]
      by_cases hd : (accumulate 0 whole).2 = 0
      · refine ⟨.ok (wholeOrReal negative (accumulate 0 whole).1), fun rest hr => ?_⟩
        rw [unsigned_whole negative hw hr, if_pos hd]
        rfl
      · obtain ⟨outcome, ho⟩ := realTail_alone negative (accumulate 0 whole).1
          (accumulate 0 whole).2 .none
        refine ⟨outcome, fun rest hr => ?_⟩
        rw [unsigned_whole negative hw hr, if_neg hd]
        exact ho rest hr
    | signed hs hd =>
      obtain ⟨outcome, ho⟩ := realTail_alone negative (accumulate 0 whole).1
        (accumulate 0 whole).2 (.signed hs hd)
      refine ⟨outcome, fun rest hr => ?_⟩
      rw [List.append_assoc, List.cons_append, List.cons_append, unsigned_exponent negative hw]
      exact ho rest hr

theorem Whole.exists_cons {whole : List Char} (h : Whole whole) :
    ∃ d ds, whole = d :: ds ∧ d.isDigit = true := by
  rcases h with rfl | ⟨h, -⟩
  · exact ⟨'0', [], rfl, rfl⟩
  · obtain ⟨d, ds, rfl⟩ := List.exists_cons_of_ne_nil h.ne_nil
    exact ⟨d, ds, rfl, h.isDigit d List.mem_cons_self⟩

theorem Magnitude.exists_cons {text : List Char} (h : Magnitude text) :
    ∃ d ds, text = d :: ds ∧ d.isDigit = true := by
  obtain ⟨hw, hf, he⟩ := h
  obtain ⟨d, ds, rfl, hd⟩ := hw.exists_cons
  exact ⟨d, _, rfl, hd⟩

theorem number_of_isDigit {d : Char} (hd : d.isDigit = true) (cs : List Char) :
    number (d :: cs) = unsigned false (d :: cs) := by
  unfold number
  split
  · next h => cases h; cases hd
  · rfl

/-- **A numeral is read to its end**, whatever delimited text follows. -/
theorem number_alone {text : List Char} (h : Numeral text) : ReadAlone number text := by
  cases h with
  | plain h =>
    obtain ⟨d, ds, rfl, hd⟩ := h.exists_cons
    obtain ⟨outcome, ho⟩ := unsigned_alone false h
    refine ⟨outcome, fun rest hr => ?_⟩
    rw [List.cons_append, number_of_isDigit hd]
    exact ho rest hr
  | minus h => exact unsigned_alone true h

theorem Numeral.exists_cons {text : List Char} (h : Numeral text) :
    ∃ c cs, text = c :: cs ∧ startsNumber c = true := by
  cases h with
  | plain h =>
    obtain ⟨d, ds, rfl, hd⟩ := h.exists_cons
    exact ⟨d, ds, rfl, by simp [startsNumber, hd]⟩
  | minus h => exact ⟨'-', _, rfl, rfl⟩

theorem not_isBlank_of_startsNumber {c : Char} (h : startsNumber c = true) : isBlank c = false := by
  unfold isBlank
  simp only [Bool.or_eq_false_iff, beq_eq_false_iff_ne]
  refine ⟨⟨⟨?_, ?_⟩, ?_⟩, ?_⟩ <;> rintro rfl <;> cases h

/-! ### Whole numbers -/

theorem head?_toDigits_ne {n : Nat} (h : 0 < n) : (Nat.toDigits 10 n).head? ≠ some '0' := by
  induction n using Nat.strongRecOn with
  | ind n ih =>
    rcases Nat.lt_or_ge n 10 with hn | hn
    · have hdigit : ∀ d < 10, 0 < d → [Nat.digitChar d].head? ≠ some '0' := by decide +kernel
      rw [Nat.toDigits_of_lt_base hn]
      exact hdigit n hn h
    · have hhead := ih (n / 10) (by omega) (by omega)
      obtain ⟨d, ds, hd⟩ := List.exists_cons_of_ne_nil (Nat.toDigits_ne_nil (n := n / 10) (b := 10))
      rw [Nat.toDigits_of_base_le (by decide) hn, hd]
      rwa [hd] at hhead

theorem digits_toDigits (n : Nat) : Digits (Nat.toDigits 10 n) where
  ne_nil := Nat.toDigits_ne_nil
  isDigit _ hc := Nat.isDigit_of_mem_toDigits (by decide) (by decide) hc

theorem whole_toDigits (n : Nat) : Whole (Nat.toDigits 10 n) := by
  rcases Nat.eq_zero_or_pos n with rfl | h
  · exact .inl rfl
  · exact .inr ⟨digits_toDigits n, head?_toDigits_ne h⟩

theorem le_ofDigitChars (ds : List Char) (n : Nat) : n ≤ Nat.ofDigitChars 10 ds n := by
  induction ds generalizing n with
  | nil => exact Nat.le_refl n
  | cons d ds ih =>
    rw [Nat.ofDigitChars_cons]
    exact Nat.le_trans (by omega) (ih _)

/-- no digit is dropped if the whole number fits 64 bits -/
theorem accumulate_of_lt {ds : List Char} {n : Nat}
    (h : Nat.ofDigitChars 10 ds n < 18446744073709551616) :
    accumulate n ds = (Nat.ofDigitChars 10 ds n, 0) := by
  induction ds generalizing n with
  | nil => rfl
  | cons d ds ih =>
    rw [Nat.ofDigitChars_cons, Nat.mul_comm] at h ⊢
    rw [accumulate, if_pos (Nat.lt_of_le_of_lt (le_ofDigitChars ds _) h)]
    exact ih h

theorem unsigned_toDigits (negative : Bool) {n : Nat} (h : n < 18446744073709551616)
    {rest : List Char} (hr : Delimited rest) :
    unsigned negative (Nat.toDigits 10 n ++ rest) = .ok (wholeOrReal negative n, rest) := by
  have hn : Nat.ofDigitChars 10 (Nat.toDigits 10 n) 0 = n :=
    Nat.ofDigitChars_toDigits (by decide) (by decide)
  rw [unsigned_whole negative (whole_toDigits n) hr, accumulate_of_lt (by rwa [hn]), hn]
  rfl

theorem magnitude_toDigits (n : Nat) : Magnitude (Nat.toDigits 10 n) := by
  have h := Magnitude.mk (whole_toDigits n) .none .none
  rwa [List.append_nil, List.append_nil] at h

theorem numeral_integerDigits (n : Int) : Numeral (Decimal.integerDigits n) := by
  unfold Decimal.integerDigits
  split
  · exact .minus (magnitude_toDigits _)
  · exact .plain (magnitude_toDigits _)

/-- the decimal of a number that fits 64 bits is read back as this number -/
theorem number_integerDigits {n : Int} (hlo : -9223372036854775808 ≤ n)
    (hhi : n < 18446744073709551616) {rest : List Char} (hr : Delimited rest) :
    number (Decimal.integerDigits n ++ rest) = .ok (.whole n, rest) := by
  unfold Decimal.integerDigits
  split
  · next hn =>
    show unsigned true (Nat.toDigits 10 n.natAbs ++ rest) = _
    rw [unsigned_toDigits true (by omega) hr, wholeOrReal, if_pos rfl, if_pos (by omega)]
    congr 3
    omega
  · next hn =>
    obtain ⟨d, ds, hcons, hd⟩ := (whole_toDigits n.natAbs).exists_cons
    have hfalse := unsigned_toDigits false (n := n.natAbs) (by omega) hr
    rw [hcons, List.cons_append] at hfalse ⊢
    rw [number_of_isDigit hd, hfalse, wholeOrReal, if_neg Bool.false_ne_true]
    congr 3
    omega

end TinyScript.Json
