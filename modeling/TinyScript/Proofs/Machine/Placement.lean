import TinyScript.Assembly.Machine

/-!
# Where lines lie in memory

A listing is put into memory line by line, so every part of it lies somewhere: its labels have their
addresses, and its instructions and data are found there.

* `size`               the words that lines take
* `Placed`             lines that lie in memory from an address on
* `placed_append`      lines in two parts lie one behind the other
* `placed_ofLines`     a listing lies in its own memory, if its labels are distinct
-/

namespace TinyScript.Assembly

def size : List Line → Nat
  | [] => 0
  | line :: lines => line.size + size lines

@[simp] theorem size_nil : size [] = 0 := rfl

@[simp] theorem size_cons (line : Line) (lines : List Line) :
    size (line :: lines) = line.size + size lines := rfl

@[simp] theorem size_append (xs ys : List Line) : size (xs ++ ys) = size xs + size ys := by
  induction xs with
  | nil => simp
  | cons x xs ih => rw [List.cons_append, size_cons, size_cons, ih, Nat.add_assoc]

@[simp] theorem size_code (is : List Instr) : size (code is) = is.length := by
  induction is with
  | nil => rfl
  | cons i is ih =>
    show 1 + size (code is) = _
    rw [ih, List.length_cons, Nat.add_comm]

@[simp] theorem labels_append (xs ys : List Line) : labels (xs ++ ys) = labels xs ++ labels ys := by
  induction xs with
  | nil => rfl
  | cons x xs ih => cases x <;> simp [labels, ih]

@[simp] theorem labels_code (is : List Instr) : labels (code is) = [] := by
  induction is with
  | nil => rfl
  | cons i is ih => exact ih

/-- the lines lie in memory from an address on -/
def Placed (image : Image) : (a : Nat) → List Line → Prop
  | _, [] => True
  | a, .label name :: lines => image.address? name = some a ∧ Placed image a lines
  | a, .instr i :: lines => image.code[a]? = some (some i) ∧ Placed image (a + 1) lines
  | a, .data value count :: lines =>
    (∀ j < count, image.words[a + j]? = some value) ∧ Placed image (a + count) lines
  | a, .blank :: lines => Placed image a lines

theorem placed_append {image : Image} {a : Nat} {xs ys : List Line} :
    Placed image a (xs ++ ys) ↔ Placed image a xs ∧ Placed image (a + size xs) ys := by
  induction xs generalizing a with
  | nil => simp [Placed]
  | cons x xs ih => cases x <;> simp [Placed, Line.size, ih, and_assoc, Nat.add_assoc]

namespace Image

theorem codeOf_data_ne_some (value : Int32) (count k : Nat) (i : Instr) :
    (codeOf (.data value count))[k]? ≠ some (some i) := by
  intro h
  have hm := List.mem_of_getElem? h
  rw [codeOf, List.mem_replicate] at hm
  cases hm.2

theorem mem_of_mem_codeOf {lines : List Line} {i : Instr} (h : some i ∈ lines.flatMap codeOf) :
    .instr i ∈ lines := by
  obtain ⟨line, hl, hi⟩ := List.mem_flatMap.mp h
  cases line with
  | instr j =>
    obtain rfl := Option.some.inj (List.mem_singleton.mp hi)
    exact hl
  | data value count =>
    rw [codeOf, List.mem_replicate] at hi
    cases hi.2
  | label name => cases hi
  | blank => cases hi

theorem length_flatMap_codeOf (lines : List Line) : (lines.flatMap codeOf).length = size lines := by
  induction lines with
  | nil => rfl
  | cons line lines ih => rw [List.flatMap_cons, List.length_append, ih, length_codeOf, size_cons]

theorem length_flatMap_wordsOf (lines : List Line) :
    (lines.flatMap wordsOf).length = size lines := by
  induction lines with
  | nil => rfl
  | cons line lines ih => rw [List.flatMap_cons, List.length_append, ih, length_wordsOf, size_cons]

theorem size_words (lines : List Line) : (ofLines lines).words.size = size lines := by
  show (List.flatMap wordsOf lines).toArray.size = _
  rw [List.size_toArray, length_flatMap_wordsOf]

theorem size_code (lines : List Line) : (ofLines lines).code.size = size lines := by
  show (List.flatMap codeOf lines).toArray.size = _
  rw [List.size_toArray, length_flatMap_codeOf]

theorem lt_size_of_code {before after : List Line} {x : Nat} {i : Instr}
    (hafter : ∀ j, .instr j ∉ after)
    (h : (ofLines (before ++ after)).code[x]? = some (some i)) : x < size before := by
  rcases Nat.lt_or_ge x (size before) with hx | hx
  · exact hx
  · have hc : ((before ++ after).flatMap codeOf)[x]? = some (some i) := by
      rw [← h]
      exact List.getElem?_toArray.symm
    rw [← length_flatMap_codeOf] at hx
    rw [List.flatMap_append, List.getElem?_append_right hx] at hc
    exact absurd (mem_of_mem_codeOf (List.mem_of_getElem? hc)) (hafter i)

theorem addressesOf_append (start : Nat) (xs ys : List Line) :
    addressesOf start (xs ++ ys) = addressesOf start xs ++ addressesOf (start + size xs) ys := by
  induction xs generalizing start with
  | nil => simp [addressesOf]
  | cons x xs ih => cases x <;> simp [addressesOf, Line.size, ih, Nat.add_assoc]

theorem map_addressesOf (start : Nat) (lines : List Line) :
    (addressesOf start lines).map Prod.fst = labels lines := by
  induction lines generalizing start with
  | nil => rfl
  | cons line lines ih => cases line <;> simp [addressesOf, labels, ih]

/-- a label has the address of what is behind it, unless it occurred before -/
theorem address?_ofLines {before after : List Line} {name : String} (h : name ∉ labels before) :
    (ofLines (before ++ .label name :: after)).address? name = some (size before) := by
  show (addressesOf 0 (before ++ .label name :: after)).lookup name = _
  have hnone : (addressesOf 0 before).lookup name = none := by
    rw [List.lookup_eq_none_iff]
    intro p hp
    rw [bne_iff_ne]
    rintro rfl
    exact h (map_addressesOf 0 before ▸ List.mem_map_of_mem hp)
  rw [addressesOf_append, List.lookup_append, hnone, Nat.zero_add]
  simp [addressesOf]

theorem code_ofLines (before : List Line) (i : Instr) (after : List Line) :
    (ofLines (before ++ .instr i :: after)).code[size before]? = some (some i) := by
  show ((before ++ .instr i :: after).flatMap codeOf).toArray[size before]? = _
  rw [List.flatMap_append, List.getElem?_toArray, ← length_flatMap_codeOf,
    List.getElem?_append_right (Nat.le_refl _), Nat.sub_self]
  rfl

theorem words_ofLines (before : List Line) (value : Int32) {count j : Nat} (hj : j < count)
    (after : List Line) :
    (ofLines (before ++ .data value count :: after)).words[size before + j]? = some value := by
  show ((before ++ .data value count :: after).flatMap wordsOf).toArray[size before + j]? = _
  rw [List.flatMap_append, List.getElem?_toArray, ← length_flatMap_wordsOf,
    List.getElem?_append_right (Nat.le_add_right _ _), Nat.add_sub_cancel_left, List.flatMap_cons,
    wordsOf, List.getElem?_append_left (by rwa [List.length_replicate]), List.getElem?_replicate,
    if_pos hj]

end Image

namespace Placed

variable {image : Image} {a k : Nat} {lines : List Line}

theorem code {i : Instr} (h : Placed image a lines)
    (hk : (lines.flatMap Image.codeOf)[k]? = some (some i)) :
    image.code[a + k]? = some (some i) := by
  induction lines generalizing a k with
  | nil => cases hk
  | cons line lines ih =>
    cases line with
    | label name => exact ih h.2 hk
    | blank => exact ih h hk
    | instr j =>
      cases k with
      | zero =>
        obtain rfl : j = i := Option.some.inj (Option.some.inj hk)
        exact h.1
      | succ k =>
        have hrest := ih h.2 (k := k) hk
        rwa [Nat.add_assoc, Nat.add_comm 1] at hrest
    | data value count =>
      rw [List.flatMap_cons] at hk
      rcases Nat.lt_or_ge k count with hlt | hge
      · rw [List.getElem?_append_left (by rwa [Image.length_codeOf])] at hk
        exact absurd hk (Image.codeOf_data_ne_some value count k i)
      · rw [List.getElem?_append_right (by rwa [Image.length_codeOf])] at hk
        have hrest := ih h.2 hk
        rw [Image.length_codeOf, Line.size, Nat.add_assoc, Nat.add_sub_cancel' hge] at hrest
        exact hrest

theorem address_from {name : String} (start : Nat) (h : Placed image (a + start) lines)
    (hk : (name, k) ∈ Image.addressesOf start lines) : image.address? name = some (a + k) := by
  induction lines generalizing start with
  | nil => cases hk
  | cons line lines ih =>
    cases line with
    | label x =>
      rcases List.mem_cons.mp hk with he | hk
      · obtain ⟨rfl, rfl⟩ := Prod.mk.inj he
        exact h.1
      · exact ih _ h.2 hk
    | blank => exact ih _ h hk
    | instr i => exact ih _ h.2 hk
    | data value count =>
      have hrest := h.2
      rw [Nat.add_assoc] at hrest
      exact ih _ hrest hk

theorem address {name : String} (h : Placed image a lines)
    (hk : (name, k) ∈ Image.addressesOf 0 lines) : image.address? name = some (a + k) :=
  address_from 0 h hk

end Placed

/-- the rest of a listing lies behind what comes before it -/
theorem placed_ofLines_append (before after : List Line) (h : (labels (before ++ after)).Nodup) :
    Placed (Image.ofLines (before ++ after)) (size before) after := by
  induction after generalizing before with
  | nil => trivial
  | cons line after ih =>
    have hrest := ih (before ++ [line])
    rw [List.append_assoc, List.singleton_append] at hrest
    specialize hrest h
    rw [size_append] at hrest
    cases line with
    | label name =>
      refine ⟨Image.address?_ofLines fun hm => ?_, hrest⟩
      rw [labels_append] at h
      exact (List.nodup_append.mp h).2.2 name hm name List.mem_cons_self rfl
    | instr i => exact ⟨Image.code_ofLines before i after, hrest⟩
    | data value count => exact ⟨fun j hj => Image.words_ofLines before value hj after, hrest⟩
    | blank => exact hrest

/-- **A listing lies in its own memory.** -/
theorem placed_ofLines {lines : List Line} (h : (labels lines).Nodup) :
    Placed (Image.ofLines lines) 0 lines := placed_ofLines_append [] lines h

end TinyScript.Assembly
