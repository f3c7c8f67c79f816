import TinyScript.Run

/-!
# Which operands an operator accepts

Every operator is defined for two numbers.  Two texts can be joined, subtracted and compared for equality,
and a text can be repeated.  A count below zero cannot be coerced to a number of times, and everything else
is a mismatch of kinds.

* `Value.IsNumber`                integers and doubles
* `Value.apply_of_isNumber`       every operator gives a number for two of them
* `Value.Accepts`, `Value.CountsBelowZero`   the operands that an operator accepts, and the negative counts
* `Value.Verdict`                 the three ways in which an operator can answer
* `Value.verdict_apply`           it answers by what its operands are
* `Expr.HasNumber`                an expression has a number as its value
-/

namespace TinyScript.Value

/-! ### Numbers -/

def IsNumber (v : Value) : Prop := v.kind ≠ .string

theorem isNumber_int (n : Int32) : (int n).IsNumber := by simp [IsNumber, kind]
theorem isNumber_float (x : Float) : (float x).IsNumber := by simp [IsNumber, kind]

theorem isNumber_ofBool (b : Bool) : (ofBool b).IsNumber := isNumber_int _

theorem isNumber_demote (x : Float) : (demote x).IsNumber := by
  unfold demote
  split
  · split
    · exact isNumber_int _
    · exact isNumber_float _
  · exact isNumber_float _

theorem toFloat?_of_isNumber {v : Value} (h : v.IsNumber) : ∃ x, v.toFloat? = some x := by
  cases v with
  | int n => exact ⟨_, rfl⟩
  | float x => exact ⟨_, rfl⟩
  | text s => exact absurd rfl h

theorem truth?_of_isNumber {v : Value} (h : v.IsNumber) : ∃ b, v.truth? = some b := by
  cases v with
  | int n => exact ⟨_, rfl⟩
  | float x => exact ⟨_, rfl⟩
  | text s => exact absurd rfl h

theorem isNumber_of_toFloat? {v : Value} {x : Float} (h : v.toFloat? = some x) : v.IsNumber := by
  cases v with
  | int n => exact isNumber_int n
  | float x => exact isNumber_float x
  | text s => cases h

theorem isNumber_of_truth? {v : Value} {b : Bool} (h : v.truth? = some b) : v.IsNumber := by
  cases v with
  | int n => exact isNumber_int n
  | float x => exact isNumber_float x
  | text s => cases h

theorem arithmetic_of_isNumber (op : Operator) {l r : Value} (hl : l.IsNumber) (hr : r.IsNumber) :
    ∃ v, arithmetic op l r = .ok v ∧ v.IsNumber := by
  obtain ⟨a, ha⟩ := toFloat?_of_isNumber hl
  obtain ⟨b, hb⟩ := toFloat?_of_isNumber hr
  unfold arithmetic
  rw [ha, hb]
  extract_lets whole
  cases whole with
  | some n => exact ⟨_, rfl, isNumber_int n⟩
  | none => exact ⟨_, rfl, isNumber_demote _⟩

theorem comparison_of_isNumber {op : Operator} (hop : op.isComparison = true) {l r : Value}
    (hl : l.IsNumber) (hr : r.IsNumber) : ∃ v, comparison op l r = .ok v ∧ v.IsNumber := by
  obtain ⟨a, ha⟩ := toFloat?_of_isNumber hl
  obtain ⟨b, hb⟩ := toFloat?_of_isNumber hr
  unfold comparison
  rw [ha, hb]
  exact ⟨_, if_pos hop, isNumber_ofBool _⟩

theorem logical_of_isNumber (op : Operator) {l r : Value} (hl : l.IsNumber) (hr : r.IsNumber) :
    ∃ v, logical op l r = .ok v ∧ v.IsNumber := by
  obtain ⟨a, ha⟩ := truth?_of_isNumber hl
  obtain ⟨b, hb⟩ := truth?_of_isNumber hr
  unfold logical
  rw [ha, hb]
  exact ⟨_, rfl, isNumber_ofBool _⟩

theorem apply_of_isNumber (op : Operator) {l r : Value} (hl : l.IsNumber) (hr : r.IsNumber) :
    ∃ v, apply op l r = .ok v ∧ v.IsNumber := by
  cases op with
  | add | sub | mul | div => exact arithmetic_of_isNumber _ hl hr
  | and | or => exact logical_of_isNumber _ hl hr
  | eq | ne | lt | gt | le | ge => exact comparison_of_isNumber rfl hl hr

theorem negate_of_isNumber {v : Value} (h : v.IsNumber) :
    ∃ w, negate v = .ok w ∧ w.IsNumber := by
  obtain ⟨b, hb⟩ := truth?_of_isNumber h
  exact ⟨ofBool !b, by rw [negate, hb], isNumber_ofBool _⟩

theorem condition_of_isNumber {v : Value} (h : v.IsNumber) : ∃ b, condition v = .ok b := by
  obtain ⟨b, hb⟩ := truth?_of_isNumber h
  exact ⟨b, by rw [condition, hb]⟩

/-! ### Texts -/

def IsText (v : Value) : Prop := v.kind = .string

theorem isText_text (s : String) : (text s).IsText := rfl

theorem IsText.exists_eq {v : Value} (h : v.IsText) : ∃ s, v = text s := by
  cases v with
  | text s => exact ⟨s, rfl⟩
  | int n => cases h
  | float x => cases h

theorem isText_or_isNumber (v : Value) : v.IsText ∨ v.IsNumber := Decidable.em (v.kind = .string)

/-- the operands that an operator accepts -/
def Accepts (op : Operator) (l r : Value) : Prop :=
  (l.IsNumber ∧ r.IsNumber) ∨
  (l.IsText ∧ r.IsText ∧ (op = .add ∨ op = .sub ∨ op = .eq ∨ op = .ne)) ∨
  (op = .mul ∧ l.IsText ∧ ∃ n, r = .int n ∧ 0 ≤ n)

/-- a text is to be repeated a negative number of times -/
def CountsBelowZero (op : Operator) (l r : Value) : Prop :=
  op = .mul ∧ l.IsText ∧ ∃ n, r = .int n ∧ n < 0

/-- how an operator answers: with a value for operands that it accepts, otherwise with one of two failures -/
inductive Verdict (op : Operator) (l r : Value) : Except Failure Value → Prop
  | accepted (h : Accepts op l r) (v : Value) : Verdict op l r (.ok v)
  | negativeCount (h : CountsBelowZero op l r) :
      Verdict op l r (.error (.invalidCoercion r .repeatCount))
  | mismatched (h : ¬ Accepts op l r) (h' : ¬ CountsBelowZero op l r) :
      Verdict op l r (.error (mismatch op l r))

variable {op : Operator} {l r : Value}

theorem CountsBelowZero.not_accepts (h : CountsBelowZero op l r) : ¬ Accepts op l r := by
  obtain ⟨rfl, hl, n, rfl, hn⟩ := h
  rintro (⟨hl', -⟩ | ⟨-, hr, -⟩ | ⟨-, -, m, hm, hle⟩)
  · exact hl' hl
  · cases hr
  · obtain rfl := int.inj hm
    exact Int32.not_lt.mpr hle hn

namespace Verdict

/-- a mismatch is right if the operator accepts none of the combinations that have a text -/
theorem of_text (hnumber : ¬ (l.IsNumber ∧ r.IsNumber))
    (htext : l.IsText → r.IsText → ¬ (op = .add ∨ op = .sub ∨ op = .eq ∨ op = .ne))
    (hcount : l.IsText → ∀ n, r = .int n → op ≠ .mul) :
    Verdict op l r (.error (mismatch op l r)) := by
  refine .mismatched ?_ ?_
  · rintro (h | ⟨hl, hr, hop⟩ | ⟨hop, hl, n, hr, -⟩)
    · exact hnumber h
    · exact htext hl hr hop
    · exact hcount hl n hr hop
  · rintro ⟨hop, hl, n, hr, -⟩
    exact hcount hl n hr hop

variable {res : Except Failure Value}

theorem ok_iff (h : Verdict op l r res) : (∃ v, res = .ok v) ↔ Accepts op l r := by
  cases h with
  | accepted h v => exact ⟨fun _ => h, fun _ => ⟨v, rfl⟩⟩
  | negativeCount h => exact ⟨fun ⟨_, hv⟩ => (nomatch hv), fun ha => absurd ha h.not_accepts⟩
  | mismatched h h' => exact ⟨fun ⟨_, hv⟩ => (nomatch hv), fun ha => absurd ha h⟩

theorem invalidCoercion_iff (h : Verdict op l r res) :
    res = .error (.invalidCoercion r .repeatCount) ↔ CountsBelowZero op l r := by
  cases h with
  | accepted h v => exact ⟨fun hv => (nomatch hv), fun hc => absurd h hc.not_accepts⟩
  | negativeCount h => exact ⟨fun _ => h, fun _ => rfl⟩
  | mismatched h h' => exact ⟨fun hv => (nomatch hv), fun hc => absurd hc h'⟩

theorem typeMismatch_iff (h : Verdict op l r res) :
    res = .error (.typeMismatch op l.kind r.kind) ↔
      ¬ Accepts op l r ∧ ¬ CountsBelowZero op l r := by
  cases h with
  | accepted h v => exact ⟨fun hv => (nomatch hv), fun hn => absurd h hn.1⟩
  | negativeCount h => exact ⟨fun hv => (nomatch hv), fun hn => absurd h hn.2⟩
  | mismatched h h' => exact ⟨fun _ => ⟨h, h'⟩, fun _ => rfl⟩

end Verdict

/-! ### The three families of operators -/

theorem verdict_textArithmetic (hnumber : ¬ (l.IsNumber ∧ r.IsNumber))
    (hop : op.isComparison = false) : Verdict op l r (textArithmetic op l r) := by
  unfold textArithmetic
  split
  · exact .accepted (.inr (.inl ⟨isText_text _, isText_text _, .inl rfl⟩)) _
  · exact .accepted (.inr (.inl ⟨isText_text _, isText_text _, .inr (.inl rfl)⟩)) _
  · next a n =>
    split
    · next hn => exact .negativeCount ⟨rfl, isText_text a, n, rfl, hn⟩
    · next hn => exact .accepted (.inr (.inr ⟨rfl, isText_text a, n, rfl, Int32.not_lt.mp hn⟩)) _
  · next hadd hsub hmul =>
    refine .of_text hnumber (fun hl hr => ?_) (fun hl n hr hm => ?_)
    · obtain ⟨a, rfl⟩ := hl.exists_eq
      obtain ⟨b, rfl⟩ := hr.exists_eq
      rintro (rfl | rfl | rfl | rfl)
      · exact hadd a b rfl rfl rfl
      · exact hsub a b rfl rfl rfl
      · cases hop
      · cases hop
    · obtain ⟨a, rfl⟩ := hl.exists_eq
      exact hmul a n hm rfl hr

theorem verdict_arithmetic (hop : op.isComparison = false) :
    Verdict op l r (arithmetic op l r) := by
  by_cases hnumber : l.IsNumber ∧ r.IsNumber
  · obtain ⟨v, hv, -⟩ := arithmetic_of_isNumber op hnumber.1 hnumber.2
    rw [hv]
    exact .accepted (.inl hnumber) v
  · -- with a text among the operands there are neither two words nor two doubles
    have htext : arithmetic op l r = textArithmetic op l r := by
      rcases isText_or_isNumber l with hl | hl
      · obtain ⟨a, rfl⟩ := hl.exists_eq
        rfl
      · obtain ⟨b, rfl⟩ := ((isText_or_isNumber r).resolve_right fun hr => hnumber ⟨hl, hr⟩).exists_eq
        cases l <;> rfl
    rw [htext]
    exact verdict_textArithmetic hnumber hop

theorem verdict_comparison (hop : op.isComparison = true) :
    Verdict op l r (comparison op l r) := by
  by_cases hnumber : l.IsNumber ∧ r.IsNumber
  · obtain ⟨v, hv, -⟩ := comparison_of_isNumber hop hnumber.1 hnumber.2
    rw [hv]
    exact .accepted (.inl hnumber) v
  · unfold comparison
    split
    · next hl hr => exact absurd ⟨isNumber_of_toFloat? hl, isNumber_of_toFloat? hr⟩ hnumber
    · split
      · exact .accepted (.inr (.inl ⟨isText_text _, isText_text _, .inr (.inr (.inl rfl))⟩)) _
      · exact .accepted (.inr (.inl ⟨isText_text _, isText_text _, .inr (.inr (.inr rfl))⟩)) _
      · next heq hne =>
        refine .of_text hnumber (fun hl hr => ?_) (fun hl n hr hm => ?_)
        · obtain ⟨a, rfl⟩ := hl.exists_eq
          obtain ⟨b, rfl⟩ := hr.exists_eq
          rintro (rfl | rfl | rfl | rfl)
          · cases hop
          · cases hop
          · exact heq a b rfl rfl rfl
          · exact hne a b rfl rfl rfl
        · rw [hm] at hop
          cases hop

theorem verdict_logical (hop : op = .and ∨ op = .or) : Verdict op l r (logical op l r) := by
  by_cases hnumber : l.IsNumber ∧ r.IsNumber
  · obtain ⟨v, hv, -⟩ := logical_of_isNumber op hnumber.1 hnumber.2
    rw [hv]
    exact .accepted (.inl hnumber) v
  · unfold logical
    split
    · next hl hr => exact absurd ⟨isNumber_of_truth? hl, isNumber_of_truth? hr⟩ hnumber
    · refine .of_text hnumber (fun _ _ => ?_) (fun _ _ _ => ?_)
      · rcases hop with rfl | rfl <;> decide
      · rcases hop with rfl | rfl <;> decide

/-- **An operator answers by what its operands are**, and in one of three ways. -/
theorem verdict_apply (op : Operator) (l r : Value) : Verdict op l r (apply op l r) := by
  cases op with
  | add | sub | mul | div => exact verdict_arithmetic rfl
  | and => exact verdict_logical (.inl rfl)
  | or => exact verdict_logical (.inr rfl)
  | eq | ne | lt | gt | le | ge => exact verdict_comparison rfl

end TinyScript.Value

/-! ### Expressions -/

namespace TinyScript.Expr

/-- the expression has a value, and that is a number -/
def HasNumber (store : Store) (e : Expr) : Prop := ∃ v, e.eval store = .ok v ∧ v.IsNumber

variable {store : Store} {e left right : Expr}

theorem HasNumber.binary (op : Operator) (hl : left.HasNumber store) (hr : right.HasNumber store) :
    (Expr.binary op left right).HasNumber store := by
  obtain ⟨l, hl, nl⟩ := hl
  obtain ⟨r, hr, nr⟩ := hr
  obtain ⟨v, hv, nv⟩ := Value.apply_of_isNumber op nl nr
  refine ⟨v, ?_, nv⟩
  rw [eval, hl, hr]
  exact hv

theorem HasNumber.not (h : e.HasNumber store) : (Expr.not e).HasNumber store := by
  obtain ⟨v, hv, nv⟩ := h
  obtain ⟨w, hw, nw⟩ := Value.negate_of_isNumber nv
  refine ⟨w, ?_, nw⟩
  rw [eval, hv]
  exact hw

/-- a number is true or false -/
theorem HasNumber.holds (h : e.HasNumber store) : ∃ b, e.holds store = .ok b := by
  obtain ⟨v, hv, nv⟩ := h
  obtain ⟨b, hb⟩ := Value.condition_of_isNumber nv
  refine ⟨b, ?_⟩
  rw [Expr.holds, hv]
  exact hb

end TinyScript.Expr
