import TinyScript.Proofs.Binary64
import TinyScript.Value.Apply

/-!
# Doubles that could be integers

A double that is a whole number of 32 bits is never the result of an operator: an integer stands for it.

* `Value.Demoted`          a value that is no such double
* `Value.demoted_demote`   what demotion is for
* `Value.demoted_apply`, `Value.demoted_negate`, `Value.demoted_round`   the results of all operators
-/

namespace TinyScript.Value

/-- The value is no double that is a whole number of 32 bits. -/
def Demoted (v : Value) : Prop :=
  ∀ x, v = .float x → ∀ n : Int, (Binary64.ofFloat x).rational? = some (n : ℚ) → ¬ Fits n

theorem demoted_int (n : Int32) : Demoted (.int n) := nofun

theorem demoted_text (s : String) : Demoted (.text s) := nofun

theorem demoted_float_iff {x : Float} :
    Demoted (.float x) ↔ ∀ n, (Binary64.ofFloat x).whole? = some n → ¬ Fits n := by
  simp only [Demoted, Binary64.whole?_eq_some_iff]
  exact ⟨fun h => h x rfl, fun h _ hx => float.inj hx ▸ h⟩

theorem demoted_demote (x : Float) : (demote x).Demoted := by
  unfold demote
  split
  · next n hn =>
    split
    · exact demoted_int _
    · next hfits =>
      rw [demoted_float_iff, hn]
      rintro _ ⟨⟩
      exact hfits
  · next hn =>
    rw [demoted_float_iff, hn]
    exact nofun

theorem demoted_ofBool (b : Bool) : (ofBool b).Demoted := demoted_int _

/-! ### Operators -/

variable {op : Operator} {left right v : Value}

theorem demoted_textArithmetic (h : textArithmetic op left right = .ok v) : v.Demoted := by
  unfold textArithmetic at h
  split at h
  · cases h
    exact demoted_text _
  · cases h
    exact demoted_text _
  · split at h
    · cases h
    · cases h
      exact demoted_text _
  · cases h

theorem demoted_arithmetic (h : arithmetic op left right = .ok v) : v.Demoted := by
  unfold arithmetic at h
  extract_lets whole at h
  split at h
  · cases h
    exact demoted_int _
  · cases h
    exact demoted_demote _
  · exact demoted_textArithmetic h

theorem demoted_comparison (h : comparison op left right = .ok v) : v.Demoted := by
  unfold comparison at h
  split at h
  · split at h
    · cases h
      exact demoted_ofBool _
    · cases h
  · split at h
    · cases h
      exact demoted_ofBool _
    · cases h
      exact demoted_ofBool _
    · cases h

theorem demoted_logical (h : logical op left right = .ok v) : v.Demoted := by
  unfold logical at h
  split at h
  · cases h
    exact demoted_ofBool _
  · cases h

/-- No operator gives a double that an integer could stand for, whatever its operands are. -/
theorem demoted_apply (h : apply op left right = .ok v) : v.Demoted := by
  cases op with
  | add | sub | mul | div => exact demoted_arithmetic h
  | and | or => exact demoted_logical h
  | eq | ne | lt | gt | le | ge => exact demoted_comparison h

theorem demoted_negate {u : Value} (h : negate u = .ok v) : v.Demoted := by
  unfold negate at h
  split at h
  · cases h
    exact demoted_ofBool _
  · cases h

theorem demoted_round {u : Value} (h : round u = .ok v) : v.Demoted := by
  unfold round at h
  split at h
  · split at h
    · split at h
      · cases h
        exact demoted_int _
      · cases h
    · cases h
  · cases h

end TinyScript.Value
