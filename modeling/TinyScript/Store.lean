import TinyScript.Value

/-!
# The variable store

One flat set of variables with their values, in the order of their first assignment.

* `Store.find?_set_self`, `Store.find?_set_of_ne`   an assignment changes one variable
* `Store.forall_set`, `Store.forall_read`           what holds of all values, also after an assignment
-/

namespace TinyScript

structure Store where
  entries : List (String × Value) := []
deriving DecidableEq, Inhabited

namespace Store

def empty : Store := {}

def find? (s : Store) (name : String) : Option Value := s.entries.lookup name

/-- a variable that is not assigned reads as zero -/
def read (s : Store) (name : String) : Value := (s.find? name).getD (.int 0)

/-- the entries with another value for a name, which comes last if it is new -/
def setEntry (name : String) (v : Value) : List (String × Value) → List (String × Value)
  | [] => [(name, v)]
  | (name', v') :: rest =>
    if name = name' then (name, v) :: rest else (name', v') :: setEntry name v rest

def set (s : Store) (name : String) (v : Value) : Store := ⟨setEntry name v s.entries⟩

theorem lookup_setEntry (name x : String) (v : Value) (entries : List (String × Value)) :
    (setEntry name v entries).lookup x = if x = name then some v else entries.lookup x := by
  induction entries with
  | nil =>
    by_cases hx : x = name
    · simp [setEntry, hx]
    · simp [setEntry, List.lookup_cons, beq_false_of_ne hx, hx]
  | cons e rest ih =>
    obtain ⟨name', v'⟩ := e
    by_cases h : name = name'
    · subst h
      by_cases hx : x = name
      · simp [setEntry, hx]
      · simp [setEntry, List.lookup_cons, beq_false_of_ne hx, hx]
    · by_cases hx : x = name
      · subst hx
        simp [setEntry, List.lookup_cons, beq_false_of_ne h, h, ih]
      · simp [setEntry, List.lookup_cons, h, hx, ih]

@[simp] theorem find?_empty (x : String) : empty.find? x = none := rfl

@[simp] theorem find?_set_self (s : Store) (name : String) (v : Value) :
    (s.set name v).find? name = some v := by
  simp [find?, set, lookup_setEntry]

theorem find?_set_of_ne (s : Store) {name x : String} (v : Value) (h : x ≠ name) :
    (s.set name v).find? x = s.find? x := by
  simp [find?, set, lookup_setEntry, h]

theorem forall_set {P : String → Value → Prop} {s : Store} (h : ∀ x w, s.find? x = some w → P x w)
    {name : String} {v : Value} (hv : P name v) : ∀ x w, (s.set name v).find? x = some w → P x w := by
  intro x w hw
  by_cases hx : x = name
  · subst hx
    rw [find?_set_self] at hw
    exact Option.some.inj hw ▸ hv
  · rw [find?_set_of_ne s v hx] at hw
    exact h x w hw

theorem forall_read {P : Value → Prop} {s : Store} {name : String}
    (h : ∀ v, s.find? name = some v → P v) (unassigned : P (.int 0)) : P (s.read name) := by
  unfold read
  cases hv : s.find? name with
  | none => exact unassigned
  | some v => exact h v hv

end Store

end TinyScript
