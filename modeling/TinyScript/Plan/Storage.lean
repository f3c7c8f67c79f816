import TinyScript.Plan.Numbering

/-!
# The variables of a program

Each variable has a slot.  The slots are numbered from zero on, in the order in which the variables come,
and a map from the variables to their slots remembers the numbers.  The order of the map says nothing; it is
the numbers that the variables are listed by.

* `Storage.insert`       a variable with its slot, a new one if it has none
* `Storage.names`        the variables in the order of their slots
-/

namespace TinyScript

/-- the slots of the variables, how many there are, and which variables ever hold a text -/
structure Storage where
  slots : List (String × Nat)
  count : Nat
  textual : List String
  numbered : Numbering slots count

namespace Storage

def empty : Storage := ⟨[], 0, [], .nil⟩

def slot? (s : Storage) (name : String) : Option Nat := s.slots.lookup name

/-- a variable that has no slot gets the next one -/
def push (s : Storage) (name : String) (h : s.slot? name = none) : Storage :=
  { s with slots := (name, s.count) :: s.slots, count := s.count + 1, numbered := s.numbered.cons h }

def insert (s : Storage) (name : String) : Nat × Storage :=
  match h : s.slot? name with
  | some i => (i, s)
  | none => (s.count, s.push name h)

def mark (s : Storage) (name : String) : Storage :=
  if name ∈ s.textual then s else { s with textual := name :: s.textual }

/-! ### Questions to a storage -/

def contains (s : Storage) (name : String) : Bool := (s.slot? name).isSome

def isTextual (s : Storage) (name : String) : Bool := s.textual.contains name

def len (s : Storage) : Nat := s.count

def isEmpty (s : Storage) : Bool := s.count == 0

/-- a variable among others that are in the order of their slots -/
def place (v : String × Nat) : List (String × Nat) → List (String × Nat)
  | [] => [v]
  | w :: ws => if v.2 ≤ w.2 then v :: w :: ws else w :: place v ws

def inOrder (slots : List (String × Nat)) : List (String × Nat) := slots.foldr place []

def names (s : Storage) : List String := (inOrder s.slots).map Prod.fst

/-! ### What an insertion does -/

variable {s : Storage} {name : String}

theorem insert_of_some {i : Nat} (h : s.slot? name = some i) : s.insert name = (i, s) := by
  unfold insert
  split
  · next j hj => rw [Option.some.inj (hj.symm.trans h)]
  · next hn => cases hn.symm.trans h

theorem insert_of_none (h : s.slot? name = none) : s.insert name = (s.count, s.push name h) := by
  unfold insert
  split
  · next i hi => cases hi.symm.trans h
  · rfl

theorem isTextual_insert (s : Storage) (name other : String) :
    (s.insert name).2.isTextual other = s.isTextual other := by
  cases h : s.slot? name with
  | some i => rw [insert_of_some h]
  | none => rw [insert_of_none h]; rfl

theorem names_mark (s : Storage) (name : String) : (s.mark name).names = s.names := by
  unfold mark
  split <;> rfl

theorem isTextual_mark {other : String} :
    (s.mark name).isTextual other = true ↔ other = name ∨ s.isTextual other = true := by
  unfold mark isTextual
  split
  · next h =>
    rw [List.contains_iff_mem]
    exact ⟨.inr, fun ho => ho.elim (fun heq => heq ▸ h) id⟩
  · rw [List.contains_iff_mem, List.contains_iff_mem, List.mem_cons]

end Storage

end TinyScript
