import TinyScript.Assembly.Fragment
import TinyScript.Plan
import TinyScript.Proofs.Machine.Placement
import TinyScript.Proofs.Machine.Reaches

/-!
# The layout of a listing, and safe states

The data of a listing lies behind its code: the literals, the variables, the buffer, the stack and one
word that marks the top of the stack.

* `Layout`           where that is
* `Layout.guard`     a state is safe if it writes to variables, the buffer or the stack only, and finds the
                     stack pointer inside the stack
* `Layout.Loaded`    the image of the layout holds the routines and the data where the layout says
* `Layout.Intact`    a machine whose code, literals and zero register are still as they were
-/

namespace TinyScript.Assembly

/-- where the data of a listing lies, and where its statements begin and end -/
structure Layout where
  image : Image
  /-- the variables in the order of their words, and the literals -/
  plan : Plan
  /-- the address of the first variable -/
  slots : Nat
  stackWords : Nat
  /-- the addresses before, between and behind statements -/
  boundary : Nat → Prop

namespace Layout

open Machine

variable (L : Layout)

def slot (name : String) : Nat := L.slots + L.plan.names.idxOf name

/-- the buffer lies behind the variables -/
def buffer : Nat := L.slots + L.plan.names.length

/-- the stack lies behind the buffer and grows down from its top -/
def stack : Nat := L.buffer + Fragment.bufferWords

def top : Nat := L.stack + L.stackWords

/-- The stack pointer is inside the stack, and at its top between two statements. -/
def Balanced (m : Machine) : Prop :=
  ∃ s, m.get .stack = Int32.ofNat s ∧ L.stack ≤ s ∧ s ≤ L.top ∧ (L.boundary m.pc → s = L.top)

/-- A run of the listing writes to variables, to the buffer and to the stack. -/
@[reducible] def guard : Guard := ⟨L.image, fun a => L.slots ≤ a ∧ a < L.top, L.Balanced⟩

instance : Coe Layout Guard := ⟨guard⟩

abbrev Safe (m : Machine) : Prop := L.guard.Safe m

variable {L}

theorem stack_le_top : L.stack ≤ L.top := Nat.le_add_right _ _

theorem balanced_of_top {m : Machine} (h : m.get .stack = Int32.ofNat L.top) : L.Balanced m :=
  ⟨L.top, h, stack_le_top, Nat.le_refl _, fun _ => rfl⟩

/-- away from statements it does not matter where in the stack the pointer is -/
theorem balanced_of_not_boundary {m : Machine} {s : Nat} (h : m.get .stack = Int32.ofNat s)
    (hlo : L.stack ≤ s) (hhi : s ≤ L.top) (hb : ¬ L.boundary m.pc) : L.Balanced m :=
  ⟨s, h, hlo, hhi, fun hc => absurd hc hb⟩

/-! ### What lies there -/

/-- the image holds the routines and the data, each where the layout says -/
structure Loaded (L : Layout) : Prop where
  words : L.image.words.size = L.top + 1
  code : L.image.code.size = L.top + 1
  limit : L.top < addressLimit
  slot : ∀ name ∈ L.plan.names, L.image.address? (Plan.slotLabel name) = some (L.slot name)
  literal : ∀ e ∈ L.plan.pool.entries, ∃ a, 0 < a ∧ a + e.bytes.toList.length < L.slots ∧
    Placed L.image a (Fragment.literal e.label e.bytes.toList)
  buffer : L.image.address? Fragment.bufferLabel = some L.buffer
  stack : L.image.address? Fragment.stackLabel = some L.stack
  top : L.image.address? Fragment.stackTopLabel = some L.top
  printInt : ∃ a, Placed L.image a Fragment.printInt
  /-- there are no statements where the trap is -/
  trap : ∃ a, Placed L.image a Fragment.divisionTrap ∧ ∀ x, a ≤ x → ¬ L.boundary x

theorem Loaded.lt_addressLimit {x : Nat} {i : Instr} (h : L.Loaded)
    (hi : L.image.code[x]? = some (some i)) : x < addressLimit := by
  obtain ⟨hx, -⟩ := Array.getElem?_eq_some_iff.mp hi
  have hcode := h.code
  have hlimit := h.limit
  omega

/-- the zero register is zero, and the memory in front of the variables is as it was loaded -/
structure Intact (L : Layout) (m : Machine) : Prop where
  zero : m.get .zero = 0
  size : m.memory.size = L.top + 1
  constant : ∀ x < L.slots, m.memory[x]? = L.image.words[x]?

theorem Intact.kept {lo hi : Nat} {m m' : Machine} (h : L.Intact m) (hk : Kept lo hi m m')
    (hlo : L.slots ≤ lo) : L.Intact m' :=
  ⟨hk.zero.trans h.zero, hk.size.trans h.size, fun x hx =>
    (hk.memory x (.inl (by omega))).trans (h.constant x hx)⟩

/-- registers for passing values, the program counter and the output do not count -/
theorem Intact.of_memory {m m' : Machine} (h : L.Intact m) (hz : m'.get .zero = m.get .zero)
    (hm : m'.memory = m.memory) : L.Intact m' :=
  ⟨hz.trans h.zero, hm ▸ h.size, hm ▸ h.constant⟩

theorem Intact.addressAt? {m : Machine} {r : Reg} {a : Nat} (h : L.Intact m) (hL : L.Loaded)
    (hr : m.get r = Int32.ofNat a) (ha : a ≤ L.top) : m.addressAt? r 0 = some a := by
  have hsize := h.size
  have hlimit := hL.limit
  exact addressAt?_ofNat hr (by omega) (by omega)

/-- between two statements of a listing -/
theorem Intact.reader {m : Machine} (h : L.Intact m) (hL : L.Loaded)
    (hs : m.get .stack = Int32.ofNat L.top) : L.guard.Reader m := by
  have hsize := h.size
  have hlimit := hL.limit
  exact ⟨h.zero, by omega, fun c hc => balanced_of_top (hc.trans hs)⟩

theorem slot_lt_buffer {name : String} (h : name ∈ L.plan.names) : L.slot name < L.buffer :=
  Nat.add_lt_add_left (List.idxOf_lt_length_of_mem h) L.slots

theorem buffer_lt_stack : L.buffer < L.stack := Nat.lt_add_of_pos_right (by decide)

end Layout

end TinyScript.Assembly
