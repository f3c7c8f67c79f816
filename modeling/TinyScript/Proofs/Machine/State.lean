import Mathlib.Algebra.Group.Nat.Defs
import TinyScript.Assembly.Machine

/-!
# Registers, memory and output of a machine

What is found in a machine that some instructions have changed.

* `get_set`                 a register holds what was put into it last
* `getElem?_store`          a word of memory holds what was stored last
* `addressAt?_ofNat`        a register that holds an address names the word at it
* `Kept lo hi m m'`         `m'` has the zero register and the stack pointer of `m`, and all words of
                            its memory but those from `lo` to `hi`
* `Prints`                  what code does that prints
* `Continues`               what holds of every later state: the memory has as many words, and the output
                            starts with the one from before
-/

namespace TinyScript.Assembly

def Reg.Keeps : Reg → Prop
  | .numbered n => numbered n ≠ zero
  | .named _ => False

@[simp] theorem Reg.keeps_numbered (n : Fin 32) : (numbered n).Keeps ↔ n ≠ 0 :=
  not_congr ⟨Reg.numbered.inj, congrArg numbered⟩

namespace Machine

def store (m : Machine) (a : Nat) (v : Int32) : Machine :=
  { m with memory := m.memory.setIfInBounds a v }

def goTo (m : Machine) (a : Nat) : Machine := { m with pc := a }

def emit (m : Machine) (b : UInt8) : Machine := { m with output := m.output.push b }

variable (m : Machine) (r : Reg) (v : Int32) (a : Nat) (b : UInt8)

/-! ### What a change leaves as it is -/

@[simp] theorem pc_set : (m.set r v).pc = m.pc := by
  unfold set
  split
  · split <;> rfl
  · rfl

@[simp] theorem memory_set : (m.set r v).memory = m.memory := by
  unfold set
  split
  · split <;> rfl
  · rfl

@[simp] theorem output_set : (m.set r v).output = m.output := by
  unfold set
  split
  · split <;> rfl
  · rfl

@[simp] theorem pc_next : m.next.pc = m.pc + 1 := rfl
@[simp] theorem get_next : m.next.get r = m.get r := rfl
@[simp] theorem memory_next : m.next.memory = m.memory := rfl
@[simp] theorem output_next : m.next.output = m.output := rfl

@[simp] theorem pc_goTo : (m.goTo a).pc = a := rfl
@[simp] theorem get_goTo : (m.goTo a).get r = m.get r := rfl
@[simp] theorem memory_goTo : (m.goTo a).memory = m.memory := rfl
@[simp] theorem output_goTo : (m.goTo a).output = m.output := rfl

@[simp] theorem pc_store : (m.store a v).pc = m.pc := rfl
@[simp] theorem get_store : (m.store a v).get r = m.get r := rfl
@[simp] theorem output_store : (m.store a v).output = m.output := rfl

@[simp] theorem pc_emit : (m.emit b).pc = m.pc := rfl
@[simp] theorem get_emit : (m.emit b).get r = m.get r := rfl
@[simp] theorem memory_emit : (m.emit b).memory = m.memory := rfl

/-! ### What a change puts in -/

@[simp] theorem output_emit : (m.emit b).output = m.output ++ [b].toByteArray :=
  ByteArray.append_toByteArray_singleton.symm

variable {m r v a}

@[simp] theorem get_set (hr : r.Keeps) (r' : Reg) :
    (m.set r v).get r' = if r' = r then v else m.get r' := by
  cases r with
  | named name => cases hr
  | numbered k =>
    have hk : ¬ k.val = 0 := fun h => (Reg.keeps_numbered k).mp hr (Fin.ext h)
    have hset : m.set (.numbered k) v = { m with registers := m.registers.set k.val v k.isLt } :=
      if_neg hk
    cases r' with
    | named name => rw [hset]; rfl
    | numbered n =>
      rw [hset]
      show (m.registers.set k.val v k.isLt)[n.val] = if Reg.numbered n = .numbered k then v else _
      rw [Vector.getElem_set]
      by_cases h : n = k
      · rw [if_pos (by rw [h]), if_pos (by rw [h])]
      · rw [if_neg fun e => h (Fin.ext e.symm), if_neg fun e => h (Reg.numbered.inj e)]
        rfl

@[simp] theorem set_zero : m.set .zero v = m := rfl

theorem machine_at (h : m.pc = a) : m = m.goTo a := by
  rw [← h]
  rfl

@[simp] theorem size_store : (m.store a v).memory.size = m.memory.size :=
  Array.size_setIfInBounds

theorem getElem?_store (ha : a < m.memory.size) (x : Nat) :
    (m.store a v).memory[x]? = if x = a then some v else m.memory[x]? := by
  show (m.memory.setIfInBounds a v)[x]? = _
  rw [Array.getElem?_setIfInBounds]
  by_cases h : x = a
  · rw [if_pos h.symm, if_pos h, if_pos ha]
  · rw [if_neg (Ne.symm h), if_neg h]

/-! ### Addresses -/

/-- the words that a register can point to -/
def addressLimit : Nat := 2 ^ 31

theorem toInt_address (h : a < addressLimit) : (Int32.ofNat a).toInt = a :=
  Int32.toInt_ofNat_of_lt h

theorem ofNat_succ_sub (a : Nat) : Int32.ofNat (a + 1) + -1 = Int32.ofNat a := by
  rw [Int32.ofNat_add]
  show Int32.ofNat a + 1 + -1 = _
  rw [Int32.add_assoc]
  exact Int32.add_zero _

theorem ofNat_ne_zero (ha : 0 < a) (h : a < addressLimit) : Int32.ofNat a ≠ 0 := by
  intro e
  have ht : (Int32.ofNat a).toInt = 0 := by rw [e]; rfl
  rw [toInt_address h] at ht
  omega

theorem addressAt?_ofNat (hr : m.get r = Int32.ofNat a) (ha : a < m.memory.size)
    (hlimit : m.memory.size ≤ addressLimit) : m.addressAt? r 0 = some a := by
  unfold addressAt?
  rw [hr, toInt_address (Nat.lt_of_lt_of_le ha hlimit)]
  rw [if_pos (by simpa using ha)]
  simp

theorem lt_size_of_addressAt? {base : Reg} {offset : Int32} (h : m.addressAt? base offset = some a) :
    a < m.memory.size := by
  unfold addressAt? at h
  dsimp only at h
  split at h
  · next hx =>
    obtain rfl := Option.some.inj h
    omega
  · cases h

/-! ### What is kept -/

/-- The zero register, the stack pointer and the memory outside of the words from `lo` to `hi` are
the same in both machines. -/
structure Kept (lo hi : Nat) (m m' : Machine) : Prop where
  zero : m'.get .zero = m.get .zero
  stack : m'.get .stack = m.get .stack
  size : m'.memory.size = m.memory.size
  memory : ∀ x, x < lo ∨ hi ≤ x → m'.memory[x]? = m.memory[x]?

namespace Kept

variable {lo hi : Nat} {m' m'' : Machine}

theorem refl (lo hi : Nat) (m : Machine) : Kept lo hi m m := ⟨rfl, rfl, rfl, fun _ _ => rfl⟩

theorem trans (h : Kept lo hi m m') (h' : Kept lo hi m' m'') : Kept lo hi m m'' :=
  ⟨h'.zero.trans h.zero, h'.stack.trans h.stack, h'.size.trans h.size,
    fun x hx => (h'.memory x hx).trans (h.memory x hx)⟩

/-- registers for passing values, the program counter and the output do not count -/
theorem of_memory (hz : m'.get .zero = m.get .zero) (hs : m'.get .stack = m.get .stack)
    (hm : m'.memory = m.memory) : Kept lo hi m m' :=
  ⟨hz, hs, by rw [hm], fun x _ => by rw [hm]⟩

theorem store (m : Machine) (a : Nat) (v : Int32) : Kept a (a + 1) m (m.store a v) := by
  refine ⟨rfl, rfl, size_store, fun x hx => ?_⟩
  show (m.memory.setIfInBounds a v)[x]? = _
  rw [Array.getElem?_setIfInBounds, if_neg (by omega)]

end Kept

/-! ### What is printed -/

/-- The machine `m'` has got to `b` and has printed these bytes since `m`, and apart from registers it has
changed at most the words from `lo` to `hi`. -/
structure Prints (lo hi b : Nat) (bytes : List UInt8) (m m' : Machine) : Prop where
  pc : m'.pc = b
  kept : Kept lo hi m m'
  output : m'.output = m.output ++ bytes.toByteArray

namespace Prints

variable {lo hi b : Nat} {first rest : List UInt8} {m' m'' : Machine}

theorem after (hk : Kept lo hi m m') (ho : m'.output = m.output ++ first.toByteArray)
    (h : Prints lo hi b rest m' m'') : Prints lo hi b (first ++ rest) m m'' := by
  refine ⟨h.pc, hk.trans h.kept, ?_⟩
  rw [h.output, ho, ByteArray.append_assoc, List.toByteArray_append]

theorem after_quiet (hk : Kept lo hi m m') (ho : m'.output = m.output)
    (h : Prints lo hi b rest m' m'') : Prints lo hi b rest m m'' :=
  ⟨h.pc, hk.trans h.kept, by rw [h.output, ho]⟩

/-- code that may change no word changes none -/
theorem memory_eq (h : Prints 0 0 b rest m m') : m'.memory = m.memory :=
  Array.ext_getElem? fun x => h.kept.memory x (.inr (Nat.zero_le x))

end Prints

/-! ### What every run keeps -/

/-- the memory has as many words as before, and the output has at most become longer -/
structure Continues (m m' : Machine) : Prop where
  size : m'.memory.size = m.memory.size
  output : ∃ rest, m'.output = m.output ++ rest

namespace Continues

variable {image : Image} {m m' m'' : Machine}

theorem of_eq (hm : m'.memory.size = m.memory.size) (ho : m'.output = m.output) :
    Continues m m' := ⟨hm, .empty, ho.trans ByteArray.append_empty.symm⟩

theorem trans (h : Continues m m') (h' : Continues m' m'') : Continues m m'' := by
  obtain ⟨x, hx⟩ := h.output
  obtain ⟨y, hy⟩ := h'.output
  exact ⟨h'.size.trans h.size, x ++ y, by rw [hy, hx, ByteArray.append_assoc]⟩

theorem of_goOn {o : Option Machine} (h : goOn o = .running m') : o = some m' := by
  cases o with
  | none => cases h
  | some x => exact congrArg some (Step.running.inj h)

theorem perform {i : Instr} (h : Machine.perform image m i = .running m') : Continues m m' := by
  cases i with
  | li rd n =>
    obtain rfl := Step.running.inj h
    exact .of_eq (by simp) (by simp)
  | la rd label =>
    obtain ⟨a, -, rfl⟩ := Option.map_eq_some_iff.mp (of_goOn h)
    exact .of_eq (by simp) (by simp)
  | lw rd base offset =>
    obtain ⟨a, -, h⟩ := Option.bind_eq_some_iff.mp (of_goOn h)
    obtain ⟨v, -, h⟩ := Option.bind_eq_some_iff.mp h
    obtain rfl := Option.some.inj h
    exact .of_eq (by simp) (by simp)
  | sw base offset src =>
    obtain ⟨a, -, h⟩ := Option.bind_eq_some_iff.mp (of_goOn h)
    obtain rfl := Option.some.inj h
    exact .of_eq size_store rfl
  | addi rd rs n =>
    obtain rfl := Step.running.inj h
    exact .of_eq (by simp) (by simp)
  | alu op rd a b =>
    obtain rfl := Step.running.inj h
    exact .of_eq (by simp) (by simp)
  | branch test a b label =>
    rw [Machine.perform] at h
    split at h
    · obtain ⟨x, -, rfl⟩ := Option.map_eq_some_iff.mp (of_goOn h)
      exact .of_eq rfl rfl
    · obtain rfl := Step.running.inj h
      exact .of_eq rfl rfl
  | jal rd label =>
    obtain ⟨a, -, rfl⟩ := Option.map_eq_some_iff.mp (of_goOn h)
    exact .of_eq (congrArg Array.size (memory_set ..)) (output_set ..)
  | jalr rd rs offset =>
    obtain rfl := Step.running.inj h
    exact .of_eq (congrArg Array.size (memory_set ..)) (output_set ..)
  | ewrite rs =>
    obtain rfl := Step.running.inj h
    exact ⟨rfl, _, output_emit ..⟩
  | ebreak => cases h

theorem step (h : Machine.step image m = .running m') : Continues m m' := by
  unfold Machine.step at h
  split at h
  · exact perform h
  · cases h

theorem of_goOn_halted {o : Option Machine} (h : goOn o = .halted m') : False := by
  cases o <;> cases h

theorem step_halted (h : Machine.step image m = .halted m') : Continues m m' := by
  unfold Machine.step at h
  split at h
  · next i _ =>
    cases i with
    | ebreak =>
      obtain rfl := Step.halted.inj h
      exact .of_eq rfl rfl
    | branch test a b label =>
      rw [Machine.perform] at h
      split at h
      · exact (of_goOn_halted h).elim
      · cases h
    | la rd label => exact (of_goOn_halted h).elim
    | lw rd base offset => exact (of_goOn_halted h).elim
    | sw base offset src => exact (of_goOn_halted h).elim
    | jal rd label => exact (of_goOn_halted h).elim
    | li rd n => cases h
    | addi rd rs n => cases h
    | alu op rd a b => cases h
    | jalr rd rs offset => cases h
    | ewrite rs => cases h
  · cases h

theorem run {k : Nat} (h : Machine.run image k m = .running m') : Continues m m' := by
  induction k generalizing m with
  | zero =>
    obtain rfl := Step.running.inj h
    exact .of_eq rfl rfl
  | succ k ih =>
    rw [Machine.run] at h
    cases hs : Machine.step image m with
    | running x =>
      rw [hs] at h
      exact (step hs).trans (ih h)
    | halted x => rw [hs] at h; cases h
    | stuck => rw [hs] at h; cases h

theorem halted {k : Nat} (h : Machine.run image k m = .halted m') : Continues m m' := by
  induction k generalizing m with
  | zero => cases h
  | succ k ih =>
    rw [Machine.run] at h
    cases hs : Machine.step image m with
    | running x =>
      rw [hs] at h
      exact (step hs).trans (ih h)
    | halted x =>
      rw [hs] at h
      obtain rfl := Step.halted.inj h
      exact step_halted hs
    | stuck => rw [hs] at h; cases h

theorem run_of_le {k n : Nat} (hk : k ≤ n) (h : Machine.run image n m = .running m') :
    ∃ x, Machine.run image k m = .running x ∧ Continues x m' := by
  induction k generalizing n m with
  | zero => exact ⟨m, rfl, run h⟩
  | succ k ih =>
    obtain ⟨n, rfl⟩ : ∃ i, n = i + 1 := ⟨n - 1, by omega⟩
    rw [Machine.run] at h ⊢
    cases hs : Machine.step image m with
    | running x =>
      rw [hs] at h
      exact ih (Nat.le_of_succ_le_succ hk) h
    | halted x => rw [hs] at h; cases h
    | stuck => rw [hs] at h; cases h

end Continues

/-- what a machine that has stopped has written -/
def Step.final? : Step → Option ByteArray
  | .halted m => some m.output
  | _ => none

theorem Step.halted_of_final? {s : Step} {bytes : ByteArray} (h : s.final? = some bytes) :
    ∃ m, s = .halted m ∧ m.output = bytes := by
  cases s with
  | halted m => exact ⟨m, rfl, Option.some.inj h⟩
  | running m => cases h
  | stuck => cases h

end Machine

end TinyScript.Assembly
