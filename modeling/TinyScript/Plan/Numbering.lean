/-!
# Maps to numbers

A map is a list of keys with their values, in no particular order.  Here the values number the keys: the
first key that came has zero, and every further one has the next number.

* `Numbering`       each key is in the map once, and the numbers are those below some number, each once
* `Numbering.cons`  a new key with the next number keeps it so
-/

namespace TinyScript

variable {α : Type} {map : List (α × Nat)} {count i : Nat} {a : α}

structure Numbering (map : List (α × Nat)) (count : Nat) : Prop where
  keys : (map.map Prod.fst).Nodup
  numbers : (map.map Prod.snd).Perm (List.range count)

namespace Numbering

theorem nil : Numbering ([] : List (α × Nat)) 0 := ⟨List.nodup_nil, .nil⟩

theorem length (h : Numbering map count) : map.length = count := by
  simpa using h.numbers.length_eq

theorem lt_of_mem (h : Numbering map count) (hm : (a, i) ∈ map) : i < count :=
  List.mem_range.mp (h.numbers.mem_iff.mp (List.mem_map_of_mem hm))

variable [BEq α] [LawfulBEq α]

theorem cons (h : Numbering map count) (hnew : map.lookup a = none) :
    Numbering ((a, count) :: map) (count + 1) where
  keys := by
    refine List.nodup_cons.mpr ⟨fun hm => ?_, h.keys⟩
    obtain ⟨pair, hpair, rfl⟩ := List.mem_map.mp hm
    simpa using List.lookup_eq_none_iff.mp hnew pair hpair
  numbers := by
    rw [List.range_succ]
    exact (h.numbers.cons count).trans (List.perm_append_singleton count _).symm

theorem mem_of_lookup (h : map.lookup a = some i) : (a, i) ∈ map := by
  obtain ⟨before, after, rfl, -⟩ := List.lookup_eq_some_iff.mp h
  exact List.mem_append_right _ List.mem_cons_self

theorem lookup_of_mem (h : Numbering map count) (hm : (a, i) ∈ map) : map.lookup a = some i := by
  have hkeys := h.keys
  clear h
  induction map with
  | nil => cases hm
  | cons pair map ih =>
    obtain ⟨hnew, hrest⟩ := List.nodup_cons.mp hkeys
    rcases List.mem_cons.mp hm with rfl | hm
    · exact List.lookup_cons_self
    · have hne : (a == pair.1) = false :=
        beq_false_of_ne fun heq => hnew (heq ▸ List.mem_map_of_mem (f := Prod.fst) hm)
      rw [List.lookup_cons, hne]
      exact ih hm hrest

theorem lookup_eq_some_iff (h : Numbering map count) : map.lookup a = some i ↔ (a, i) ∈ map :=
  ⟨mem_of_lookup, h.lookup_of_mem⟩

end Numbering

end TinyScript
