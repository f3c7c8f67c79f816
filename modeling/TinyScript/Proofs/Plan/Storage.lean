import Mathlib.Data.List.Nodup
import TinyScript.Plan.Storage

/-!
# The variables in the order of their slots

The variables of a storage are its keys, sorted by number.  The numbers are those below the length, each
once, so the number of a variable is its place in the list, whatever the order of the map is.

* `Storage.map_inOrder`          the numbers, sorted
* `Storage.slot?_eq_some_iff`    the slot of a variable is its place
* `Storage.names_push`           a new variable comes last
-/

namespace TinyScript.Storage

/-! ### Sorting -/

theorem place_perm (v : String × Nat) (slots : List (String × Nat)) :
    (place v slots).Perm (v :: slots) := by
  induction slots with
  | nil => exact .refl _
  | cons w ws ih =>
    unfold place
    split
    · exact .refl _
    · exact (ih.cons w).trans (.swap v w ws)

theorem inOrder_perm (slots : List (String × Nat)) : (inOrder slots).Perm slots := by
  induction slots with
  | nil => exact .nil
  | cons v slots ih => exact (place_perm v _).trans (ih.cons v)

theorem pairwise_place (v : String × Nat) {slots : List (String × Nat)}
    (h : slots.Pairwise (·.2 ≤ ·.2)) : (place v slots).Pairwise (·.2 ≤ ·.2) := by
  induction slots with
  | nil => exact List.pairwise_singleton _ _
  | cons w ws ih =>
    obtain ⟨hw, hws⟩ := List.pairwise_cons.mp h
    unfold place
    split
    · next hle =>
      refine List.pairwise_cons.mpr ⟨fun u hu => ?_, h⟩
      rcases List.mem_cons.mp hu with rfl | hu
      · exact hle
      · exact Nat.le_trans hle (hw u hu)
    · next hle =>
      refine List.pairwise_cons.mpr ⟨fun u hu => ?_, ih hws⟩
      rcases List.mem_cons.mp ((place_perm v ws).mem_iff.mp hu) with rfl | hu
      · exact Nat.le_of_lt (Nat.not_le.mp hle)
      · exact hw u hu

theorem pairwise_inOrder (slots : List (String × Nat)) : (inOrder slots).Pairwise (·.2 ≤ ·.2) := by
  induction slots with
  | nil => exact .nil
  | cons v slots ih => exact pairwise_place v ih

/-- what has a greater number than all others is placed behind them -/
theorem place_of_lt (v : String × Nat) {slots : List (String × Nat)} (h : ∀ w ∈ slots, w.2 < v.2) :
    place v slots = slots ++ [v] := by
  induction slots with
  | nil => rfl
  | cons w ws ih =>
    obtain ⟨hw, hws⟩ := List.forall_mem_cons.mp h
    rw [place, if_neg (Nat.not_le.mpr hw), ih hws]
    rfl

/-! ### Slots and places -/

variable {s : Storage} {name : String} {i : Nat}

theorem map_inOrder (s : Storage) : (inOrder s.slots).map Prod.snd = List.range s.count := by
  have hperm := ((inOrder_perm s.slots).map Prod.snd).trans s.numbered.numbers
  have hsorted : ((inOrder s.slots).map Prod.snd).Pairwise (· ≤ ·) :=
    List.pairwise_map.mpr (pairwise_inOrder s.slots)
  exact hperm.eq_of_pairwise (fun _ _ _ _ => Nat.le_antisymm) hsorted List.pairwise_le_range

/-- **The slot of a variable is its place among the variables.** -/
theorem slot?_eq_some_iff : s.slot? name = some i ↔ s.names[i]? = some name := by
  have hplace {j : Nat} {v : String × Nat} (hv : (inOrder s.slots)[j]? = some v) : v.2 = j := by
    have hrange : (List.range s.count)[j]? = some v.2 := by
      rw [← map_inOrder, List.getElem?_map, hv, Option.map_some]
    obtain ⟨hlt, heq⟩ := List.getElem?_eq_some_iff.mp hrange
    rw [← heq, List.getElem_range]
  rw [slot?, s.numbered.lookup_eq_some_iff, ← (inOrder_perm s.slots).mem_iff, names,
    List.getElem?_map, Option.map_eq_some_iff]
  constructor
  · intro hm
    obtain ⟨j, hj⟩ := List.getElem?_of_mem hm
    obtain rfl : i = j := hplace hj
    exact ⟨_, hj, rfl⟩
  · rintro ⟨⟨name, j⟩, hv, rfl⟩
    obtain rfl : j = i := hplace hv
    exact List.mem_of_getElem? hv

theorem length_names (s : Storage) : s.names.length = s.len := by
  rw [names, List.length_map, (inOrder_perm s.slots).length_eq, s.numbered.length]
  rfl

theorem contains_iff : s.contains name = true ↔ ∃ i, s.slot? name = some i := Option.isSome_iff_exists

theorem mem_names : name ∈ s.names ↔ s.contains name = true := by
  rw [contains_iff, List.mem_iff_getElem?]
  exact exists_congr fun _ => slot?_eq_some_iff.symm

theorem nodup_names (s : Storage) : s.names.Nodup :=
  ((inOrder_perm s.slots).map Prod.fst).nodup_iff.mpr s.numbered.keys

theorem names_push (h : s.slot? name = none) : (s.push name h).names = s.names ++ [name] := by
  have hlt : ∀ w ∈ inOrder s.slots, w.2 < s.count := fun w hw =>
    s.numbered.lt_of_mem ((inOrder_perm s.slots).mem_iff.mp hw)
  show (place (name, s.count) (inOrder s.slots)).map Prod.fst = _
  rw [place_of_lt _ hlt, List.map_append]
  rfl

end TinyScript.Storage
