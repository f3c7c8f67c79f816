import TinyScript.Proofs.Machine.State

/-!
# Safe runs of the machine

Runs of which every state is safe, and a rule for each instruction that makes such a run longer.  What is
safe is up to the reader of the run: it says which words may be written, and where the stack pointer has to
be.

* `Guard`                which states are safe, and `Guard.free`, for which all are
* `Takes G k m m'`       from `m` to `m'` in `k` instructions, all of them in safe states
* `Takes.run`            the machine really goes there
* `Reaches G n Q m`      from `m` to a state with `Q`, in at least `n` instructions
* `Reaches.trans`        two such runs, one behind the other
* `Reaches.li`, `Reaches.la`, …   one rule for each instruction
-/

namespace TinyScript.Assembly

open Machine

/-! ### Safe states -/

/-- what the states of a run have to keep to -/
structure Guard where
  image : Image
  /-- the words that may be written -/
  Writable : Nat → Prop
  /-- whether the stack pointer is where it should be -/
  Balanced : Machine → Prop

namespace Guard

/-- the guard that forbids nothing -/
def free (image : Image) : Guard := ⟨image, fun _ => True, fun _ => True⟩

variable (G : Guard)

/-- Whether an instruction touches only memory that it may: it reads from any word, and writes to those
that may be written. -/
def Permits (m : Machine) : Instr → Prop
  | .lw _ base offset => ∃ a, m.addressAt? base offset = some a
  | .sw base offset _ => ∃ a, m.addressAt? base offset = some a ∧ G.Writable a
  | _ => True

structure Safe (m : Machine) : Prop where
  instruction : ∃ i, G.image.code[m.pc]? = some (some i) ∧ G.Permits m i
  balanced : G.Balanced m

/-- a machine that may go on anywhere with its stack pointer, and whose registers can hold the address
of each of its words -/
structure Reader (m : Machine) : Prop where
  zero : m.get .zero = 0
  size : m.memory.size ≤ addressLimit
  balanced : ∀ c : Machine, c.get .stack = m.get .stack → G.Balanced c

variable {G} {lo hi : Nat} {m m' : Machine}

theorem Reader.kept (h : G.Reader m) (hk : Kept lo hi m m') : G.Reader m' :=
  ⟨hk.zero.trans h.zero, hk.size ▸ h.size, fun c hc => h.balanced c (hc.trans hk.stack)⟩

end Guard

/-! ### Runs -/

/-- from one machine to another in so many instructions, all of them in safe states -/
inductive Takes (G : Guard) : (k : Nat) → (m m' : Machine) → Prop
  | none (m : Machine) : Takes G 0 m m
  | more {k : Nat} {m m' m'' : Machine} (safe : G.Safe m) (step : step G.image m = .running m')
      (rest : Takes G k m' m'') : Takes G (k + 1) m m''

namespace Takes

variable {G : Guard} {j k : Nat} {m m' m'' : Machine}

theorem trans (h : Takes G j m m') (h' : Takes G k m' m'') : Takes G (j + k) m m'' := by
  induction h with
  | none m => rwa [Nat.zero_add]
  | @more i _ _ _ safe step rest ih =>
    rw [Nat.add_right_comm]
    exact .more safe step (ih h')

theorem run (h : Takes G k m m') : run G.image k m = .running m' := by
  induction h with
  | none m => rfl
  | more safe step rest ih => rw [Machine.run, step]; exact ih

theorem run_add (h : Takes G k m m') (j : Nat) : Machine.run G.image (k + j) m = Machine.run G.image j m' := by
  induction h with
  | none m => rw [Nat.zero_add]
  | more safe step rest ih => rw [Nat.add_right_comm, Machine.run, step]; exact ih

theorem safe_of_lt (h : Takes G k m m') (hj : j < k) :
    ∃ x, Machine.run G.image j m = .running x ∧ G.Safe x := by
  induction h generalizing j with
  | none m => cases hj
  | more safe step rest ih =>
    cases j with
    | zero => exact ⟨_, rfl, safe⟩
    | succ j =>
      obtain ⟨x, hx, hs⟩ := ih (Nat.lt_of_succ_lt_succ hj)
      exact ⟨x, by rw [Machine.run, step]; exact hx, hs⟩

end Takes

/-- from `m` to a machine with a property, in at least so many instructions -/
def Reaches (G : Guard) (n : Nat) (Q : Machine → Prop) (m : Machine) : Prop :=
  ∃ k m', n ≤ k ∧ Takes G k m m' ∧ Q m'

namespace Reaches

variable {G : Guard} {n k : Nat} {Q R : Machine → Prop} {m : Machine}

theorem here (h : Q m) : Reaches G 0 Q m := ⟨0, m, Nat.le_refl 0, .none m, h⟩

theorem weaken (h : Reaches G n Q m) (hk : k ≤ n) : Reaches G k Q m := by
  obtain ⟨j, m', hj, ht, hq⟩ := h
  exact ⟨j, m', Nat.le_trans hk hj, ht, hq⟩

theorem uncounted (h : Reaches G n Q m) : Reaches G 0 Q m := h.weaken (Nat.zero_le n)

/-- one piece and then another; that the first takes an instruction is enough for both to -/
theorem trans (h : Reaches G n Q m) (h' : ∀ m', Q m' → Reaches G 0 R m') : Reaches G n R m := by
  obtain ⟨j, m', hj, ht, hq⟩ := h
  obtain ⟨i, m'', -, ht', hr⟩ := h' m' hq
  exact ⟨j + i, m'', by omega, ht.trans ht', hr⟩

theorem after {j : Nat} {m' : Machine} (h : Takes G j m m') (h' : Reaches G n Q m') :
    Reaches G n Q m := by
  obtain ⟨i, m'', hi, ht, hq⟩ := h'
  exact ⟨j + i, m'', by omega, h.trans ht, hq⟩

theorem imp (h : Reaches G n Q m) (h' : ∀ m', Q m' → R m') : Reaches G n R m :=
  h.trans fun m' hq => .here (h' m' hq)

/-! ### Single instructions

The machine at the address `x` is `m.goTo x`, so that the address of the next instruction stands
there as well. -/

variable {x y : Nat}

theorem perform {m' : Machine} {i : Instr} (hi : G.image.code[x]? = some (some i))
    (hb : G.Balanced (m.goTo x)) (hp : G.Permits (m.goTo x) i)
    (hm : Machine.perform G.image (m.goTo x) i = .running m') (h : Reaches G (n - 1) Q m') :
    Reaches G n Q (m.goTo x) := by
  have hstep : Machine.step G.image (m.goTo x) = .running m' := by
    unfold Machine.step
    rw [pc_goTo, hi]
    exact hm
  obtain ⟨j, m'', hj, ht, hq⟩ := h
  exact ⟨j + 1, m'', by omega, .more ⟨⟨i, hi, hp⟩, hb⟩ hstep ht, hq⟩

theorem set_goTo_next (m : Machine) (x : Nat) (r : Reg) (v : Int32) :
    ((m.goTo x).set r v).next = (m.set r v).goTo (x + 1) := by
  unfold Machine.set
  split
  · split <;> rfl
  · rfl

theorem set_goTo_goTo (m : Machine) (x y : Nat) (r : Reg) (v : Int32) :
    ((m.goTo x).set r v).goTo y = (m.set r v).goTo y := by
  unfold Machine.set
  split
  · split <;> rfl
  · rfl

variable {rd rs base src a b : Reg} {v offset : Int32} {label : String}

theorem li (hi : G.image.code[x]? = some (some (.li rd v))) (hb : G.Balanced (m.goTo x))
    (h : Reaches G (n - 1) Q ((m.set rd v).goTo (x + 1))) : Reaches G n Q (m.goTo x) := by
  refine perform hi hb trivial ?_ h
  rw [← set_goTo_next]
  rfl

theorem la (hi : G.image.code[x]? = some (some (.la rd label))) (hb : G.Balanced (m.goTo x))
    (hy : G.image.address? label = some y)
    (h : Reaches G (n - 1) Q ((m.set rd (Int32.ofNat y)).goTo (x + 1))) :
    Reaches G n Q (m.goTo x) := by
  refine perform hi hb trivial ?_ h
  rw [Machine.perform, hy, ← set_goTo_next]
  rfl

theorem lw (hi : G.image.code[x]? = some (some (.lw rd base offset)))
    (hb : G.Balanced (m.goTo x)) (hy : m.addressAt? base offset = some y)
    (hv : m.memory[y]? = some v) (h : Reaches G (n - 1) Q ((m.set rd v).goTo (x + 1))) :
    Reaches G n Q (m.goTo x) := by
  refine perform hi hb ⟨y, hy⟩ ?_ h
  rw [Machine.perform, ← set_goTo_next]
  show goOn (m.addressAt? base offset >>= fun y =>
    m.memory[y]? >>= fun v => some ((m.goTo x).set rd v).next) = _
  rw [hy]
  show goOn (m.memory[y]? >>= fun v => some ((m.goTo x).set rd v).next) = _
  rw [hv]
  rfl

theorem sw (hi : G.image.code[x]? = some (some (.sw base offset src)))
    (hb : G.Balanced (m.goTo x)) (hy : m.addressAt? base offset = some y) (hw : G.Writable y)
    (h : Reaches G (n - 1) Q ((m.store y (m.get src)).goTo (x + 1))) :
    Reaches G n Q (m.goTo x) := by
  refine perform hi hb ⟨y, hy, hw⟩ ?_ h
  rw [Machine.perform]
  show goOn (m.addressAt? base offset >>= fun y =>
    some ((m.goTo x).store y (m.get src)).next) = _
  rw [hy]
  rfl

theorem addi (hi : G.image.code[x]? = some (some (.addi rd rs v))) (hb : G.Balanced (m.goTo x))
    (h : Reaches G (n - 1) Q ((m.set rd (m.get rs + v)).goTo (x + 1))) :
    Reaches G n Q (m.goTo x) := by
  refine perform hi hb trivial ?_ h
  rw [← set_goTo_next]
  rfl

theorem alu {op : Alu} (hi : G.image.code[x]? = some (some (.alu op rd a b)))
    (hb : G.Balanced (m.goTo x))
    (h : Reaches G (n - 1) Q ((m.set rd (compute op (m.get a) (m.get b))).goTo (x + 1))) :
    Reaches G n Q (m.goTo x) := by
  refine perform hi hb trivial ?_ h
  rw [← set_goTo_next]
  rfl

theorem branch_taken {test : Test} (hi : G.image.code[x]? = some (some (.branch test a b label)))
    (hb : G.Balanced (m.goTo x)) (ht : holds test (m.get a) (m.get b) = true)
    (hy : G.image.address? label = some y) (h : Reaches G (n - 1) Q (m.goTo y)) :
    Reaches G n Q (m.goTo x) := by
  refine perform hi hb trivial ?_ h
  rw [Machine.perform, get_goTo, get_goTo, if_pos ht, jumpTo, hy]
  rfl

theorem branch_not_taken {test : Test}
    (hi : G.image.code[x]? = some (some (.branch test a b label))) (hb : G.Balanced (m.goTo x))
    (ht : holds test (m.get a) (m.get b) = false) (h : Reaches G (n - 1) Q (m.goTo (x + 1))) :
    Reaches G n Q (m.goTo x) := by
  refine perform hi hb trivial ?_ h
  rw [Machine.perform, get_goTo, get_goTo, if_neg (by rw [ht]; decide)]
  rfl

theorem jal (hi : G.image.code[x]? = some (some (.jal rd label))) (hb : G.Balanced (m.goTo x))
    (hy : G.image.address? label = some y)
    (h : Reaches G (n - 1) Q ((m.set rd (Int32.ofNat (x + 1))).goTo y)) :
    Reaches G n Q (m.goTo x) := by
  refine perform hi hb trivial ?_ h
  rw [Machine.perform, jumpTo, hy, ← set_goTo_goTo m x]
  rfl

theorem jalr (hi : G.image.code[x]? = some (some (.jalr rd rs offset)))
    (hb : G.Balanced (m.goTo x))
    (h : Reaches G (n - 1) Q ((m.set rd (Int32.ofNat (x + 1))).goTo
      ((m.get rs).toInt + offset.toInt).toNat)) : Reaches G n Q (m.goTo x) := by
  refine perform hi hb trivial ?_ h
  rw [← set_goTo_goTo m x]
  rfl

theorem ewrite (hi : G.image.code[x]? = some (some (.ewrite rs))) (hb : G.Balanced (m.goTo x))
    (h : Reaches G (n - 1) Q ((m.emit (lowByte (m.get rs))).goTo (x + 1))) :
    Reaches G n Q (m.goTo x) :=
  perform hi hb trivial rfl h

end Reaches

end TinyScript.Assembly
