import Mathlib.Data.Bool.AllAny
import TinyScript.Labels
import TinyScript.Proofs.Decimal.Integer

/-!
# What texts inherit from their parts

A text that is put together from others has no newline if they have none, and it ends with a colon
only if one of them does.

* `Text.Harmless`     the texts without newlines and colons
* `Text.Inherited`    the properties of texts that only these two characters can break
-/

namespace TinyScript

namespace Text

/-- neither a newline nor a colon is in the text -/
def Harmless (s : String) : Prop := ∀ c ∈ s.toList, c ≠ '\n' ∧ c ≠ ':'

instance (s : String) : Decidable (Harmless s) :=
  decidable_of_iff (s.toList.all fun c => c ≠ '\n' ∧ c ≠ ':') List.all_iff_forall_prop

/-- Only newlines and colons matter, and texts that follow one another do not lose the property. -/
structure Inherited (P : String → Prop) : Prop where
  append : ∀ {s t}, P s → P t → P (s ++ t)
  harmless : ∀ {s}, Harmless s → P s

theorem inherited_newline : Inherited fun s => '\n' ∉ s.toList where
  append := by
    intro s t hs ht h
    rw [String.toList_append, List.mem_append] at h
    exact h.elim hs ht
  harmless h hn := (h _ hn).1 rfl

theorem inherited_colon : Inherited fun s => s.toList.getLast? ≠ some ':' where
  append := by
    intro s t hs ht h
    rw [String.toList_append, List.getLast?_append, Option.or_eq_some_iff] at h
    exact h.elim ht fun h => hs h.2
  harmless h hc := (h _ (List.mem_of_getLast? hc)).2 rfl

theorem harmless_integer (n : Int) : Harmless (Decimal.integer n) := by
  intro c hc
  rw [Decimal.integer, String.toList_ofList] at hc
  constructor
  · rintro rfl
    exact Decimal.not_mem_integerDigits rfl (by decide) n hc
  · rintro rfl
    exact Decimal.not_mem_integerDigits rfl (by decide) n hc

namespace Inherited

variable {P : String → Prop} (hP : Inherited P)

include hP

theorem integer (n : Int) : P (Decimal.integer n) := hP.harmless (harmless_integer n)

theorem label {stem : String} (hstem : Harmless stem) (n : Nat) : P (Labels.label stem n) :=
  hP.append (hP.harmless hstem) (hP.integer n)

theorem intercalate {between : String} (hbetween : Harmless between) {parts : List String}
    (h : ∀ s ∈ parts, P s) : P (between.intercalate parts) := by
  induction parts with
  | nil =>
    have hempty : Harmless "" := by decide
    rw [String.intercalate_nil]
    exact hP.harmless hempty
  | cons s parts ih =>
    obtain ⟨hs, hparts⟩ := List.forall_mem_cons.mp h
    by_cases hne : parts = []
    · rw [hne, String.intercalate_singleton]
      exact hs
    · rw [String.intercalate_cons_of_ne_nil hne]
      exact hP.append (hP.append hs (hP.harmless hbetween)) (ih hparts)

end Inherited

end Text

end TinyScript
