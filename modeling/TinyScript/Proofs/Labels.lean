import Mathlib.Algebra.Group.Nat.Defs
import TinyScript.Labels
import TinyScript.Proofs.Decimal.Integer
import TinyScript.Proofs.Text.Spans

/-!
# Labels that are taken one after the other

A label is a stem with the decimal of a number behind it.  Stems that do not end in a digit leave no doubt
where the number begins, so the label tells both, whatever the stems are and however long the numbers.

* `toList_label`             the characters of a label
* `label_injective`          labels with the same stem differ if their numbers do
* `label_inj`                a label has one stem that does not end in a digit, and one number
* `freshAll_mem`             what is taken from a counter is numbered from there on
* `freshAll_distinct`        labels that are taken one after the other all differ
-/

namespace TinyScript

theorem Decimal.toList_integer_natCast (n : Nat) :
    (Decimal.integer n).toList = Nat.toDigits 10 n := by
  rw [integer, String.toList_ofList, integerDigits_ofNat]

namespace Labels

theorem toList_label (stem : String) (n : Nat) :
    (label stem n).toList = stem.toList ++ Nat.toDigits 10 n := by
  rw [label, String.toList_append, Decimal.toList_integer_natCast]

theorem label_injective (stem : String) : Function.Injective (label stem) := by
  intro a b h
  have hl := congrArg String.toList h
  rw [label, label, String.toList_append, String.toList_append] at hl
  have hdecimal : Decimal.integer a = Decimal.integer b :=
    String.toList_inj.mp (List.append_cancel_left hl)
  exact Int.ofNat_inj.mp (Decimal.integer_injective hdecimal)

/-! ### Stems and numbers -/

def endsInDigit (stem : String) : Bool := stem.toList.getLast?.any Char.isDigit

variable {stem stem' : String}

theorem head?_reverse_of_not_endsInDigit (h : endsInDigit stem = false) :
    ∀ c ∈ stem.toList.reverse.head?, c.isDigit = false := by
  intro c hc
  rw [List.head?_reverse, Option.mem_def] at hc
  rwa [endsInDigit, hc] at h

/-- **A label tells its stem and its number**, if the stem does not end in a digit. -/
theorem label_inj {m n : Nat} (h : endsInDigit stem = false) (h' : endsInDigit stem' = false)
    (heq : label stem m = label stem' n) : stem = stem' ∧ m = n := by
  have hdigits : ∀ k, ∀ c ∈ (Nat.toDigits 10 k).reverse, c.isDigit = true := by
    intro k c hc
    exact Nat.isDigit_of_mem_toDigits (by decide) (by decide) (List.mem_reverse.mp hc)
  have hl := congrArg (fun s => s.toList.reverse) heq
  simp only [toList_label, List.reverse_append] at hl
  -- read from the end, the digits are what stands before the first character that is none
  obtain ⟨-, hstem⟩ := span_inj (hdigits m) (head?_reverse_of_not_endsInDigit h) (hdigits n)
    (head?_reverse_of_not_endsInDigit h') hl
  obtain rfl : stem = stem' := String.toList_inj.mp (List.reverse_inj.mp hstem)
  exact ⟨rfl, label_injective stem heq⟩

/-- without the condition on the stems, two stems and two numbers can give the same label -/
example : label "a1" 0 = label "a" 10 := by decide +kernel

/-! ### One label after the other -/

variable {labels : Labels} {stems : List String}

/-- what is taken is one of the stems with a number that was still free, and the counter goes on behind it -/
theorem freshAll_mem {taken : String × Labels} (h : taken ∈ labels.freshAll stems) :
    ∃ stem ∈ stems, ∃ n, labels.allocated ≤ n ∧ n < labels.allocated + stems.length ∧
      taken.1 = label stem n ∧ taken.2.allocated = n + 1 := by
  induction stems generalizing labels with
  | nil => cases h
  | cons stem stems ih =>
    rcases List.mem_cons.mp h with rfl | h
    · refine ⟨stem, List.mem_cons_self, labels.allocated, Nat.le_refl _, ?_, rfl, rfl⟩
      rw [List.length_cons]
      omega
    · obtain ⟨stem', hstem, n, hlo, hhi, hlabel, hnext⟩ := ih h
      have hstart : (labels.fresh stem).2.allocated = labels.allocated + 1 := rfl
      rw [hstart] at hlo hhi
      refine ⟨stem', List.mem_cons_of_mem _ hstem, n, by omega, ?_, hlabel, hnext⟩
      rw [List.length_cons]
      omega

theorem length_freshAll : (labels.freshAll stems).length = stems.length := by
  induction stems generalizing labels with
  | nil => rfl
  | cons stem stems ih => rw [freshAll, List.length_cons, ih, List.length_cons]

theorem nodup_freshAll (h : ∀ stem ∈ stems, endsInDigit stem = false) :
    ((labels.freshAll stems).map Prod.fst).Nodup := by
  induction stems generalizing labels with
  | nil => exact List.nodup_nil
  | cons stem stems ih =>
    rw [freshAll, List.map_cons, List.nodup_cons]
    refine ⟨fun hmem => ?_, ih fun stem' hstem' => h stem' (List.mem_cons_of_mem _ hstem')⟩
    obtain ⟨taken, htaken, heq⟩ := List.mem_map.mp hmem
    obtain ⟨stem', hstem', n, hlo, -, hlabel, -⟩ := freshAll_mem htaken
    -- the number of this label is taken, so every later one is above it
    have hstart : (labels.fresh stem).2.allocated = labels.allocated + 1 := rfl
    obtain ⟨-, hnumber⟩ := label_inj (h stem' (List.mem_cons_of_mem _ hstem'))
      (h stem List.mem_cons_self) (hlabel.symm.trans heq)
    omega

/-- **Labels that are taken one after the other all differ**, also those with different stems, if no stem ends
in a digit.  As long as fewer than 2³² are taken the counter stays within 32 bits. -/
theorem freshAll_distinct (h : ∀ stem ∈ stems, endsInDigit stem = false)
    (few : labels.allocated + stems.length < 2 ^ 32) :
    (labels.freshAll stems).length = stems.length ∧
      ((labels.freshAll stems).map Prod.fst).Nodup ∧
      ∀ taken ∈ labels.freshAll stems, taken.2.allocated < 2 ^ 32 := by
  refine ⟨length_freshAll, nodup_freshAll h, fun taken htaken => ?_⟩
  obtain ⟨-, -, n, -, hhi, -, hnext⟩ := freshAll_mem htaken
  omega

/-- stems that go on with other stems, on numbers of one digit and of two -/
theorem freshAll_distinct_nested :
    let labels : Labels := ⟨8⟩
    let stems := ["L", "L1_", "", "L1_L", "str", "L"]
    (∀ stem ∈ stems, endsInDigit stem = false) ∧ labels.allocated + stems.length < 2 ^ 32 ∧
      (labels.freshAll stems).length = stems.length ∧
      ((labels.freshAll stems).map Prod.fst).Nodup ∧
      ∀ taken ∈ labels.freshAll stems, taken.2.allocated < 2 ^ 32 :=
  have h : ∀ stem ∈ ["L", "L1_", "", "L1_L", "str", "L"], endsInDigit stem = false := by decide +kernel
  have few : (⟨8⟩ : Labels).allocated + ["L", "L1_", "", "L1_L", "str", "L"].length < 2 ^ 32 := by decide
  ⟨h, few, freshAll_distinct h few⟩

end Labels

end TinyScript
