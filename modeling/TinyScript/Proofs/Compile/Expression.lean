import TinyScript.Proofs.Compile.Cases
import TinyScript.Proofs.Machine.Layout
import TinyScript.Proofs.Value.Integer
import TinyScript.Run

/-!
# The code of expressions

The code of an expression computes its value, or it ends in the trap: that happens exactly if evaluating
the expression meets a division of integers that has no integer for its answer.  Either way it writes to
no word of memory but those of the stack below the pointer, and no more of them than the depth of the
expression says.

* `Expr.Inexact`        evaluating the expression meets such a division
* `Computed`            the machine behind the code, with the value in the result register
* `Layout.Trapped`      the machine at the trap
* `combine_runs`        the code of an operator on the two operands
* `valueCode_runs`      the code of an expression
-/

namespace TinyScript

/-- Evaluating the expression meets a division of integers by zero or with a remainder.  The right
operand counts only if the left one has a value. -/
def Expr.Inexact (store : Store) : Expr → Prop
  | .int _ | .float _ | .text _ | .var _ => False
  | .group e | .not e | .round e => e.Inexact store
  | .binary op left right => left.Inexact store ∨
      (∃ v, left.eval store = .ok v) ∧ right.Inexact store ∨
      ∃ x y, left.eval store = .ok (.int x) ∧ right.eval store = .ok (.int y) ∧ Value.Inexact op x y

namespace Assembly

open Machine Layout

/-! ### What the code of an expression leaves -/

/-- the machine at `b` with a number in the result register; of the memory it has changed at most the
words from `lo` to `hi` -/
structure Computed (b : Nat) (n : Int32) (lo hi : Nat) (m m' : Machine) : Prop where
  pc : m'.pc = b
  result : m'.get .result = n
  kept : Kept lo hi m m'
  output : m'.output = m.output

namespace Layout

variable {L : Layout} {a a' b b' s : Nat} {m : Machine}

structure Trapped (L : Layout) (m m' : Machine) : Prop where
  pc : L.image.address? Fragment.trapLabel = some m'.pc
  output : m'.output = m.output
  stack : ∃ s, m'.get .stack = Int32.ofNat s ∧ L.stack ≤ s ∧ s ≤ L.top

/-- no statement begins or ends inside of `a` to `b`, nor at `a` unless the stack is empty -/
structure Quiet (L : Layout) (a b s : Nat) : Prop where
  first : L.boundary a → s = L.top
  rest : ∀ x, a < x → x < b → ¬ L.boundary x

theorem Quiet.balanced {x : Nat} (h : L.Quiet a b s) (ha : a ≤ x) (hb : x < b)
    (hs : m.get .stack = Int32.ofNat s) (hlo : L.stack ≤ s) (hhi : s ≤ L.top) :
    L.Balanced (m.goTo x) := by
  refine ⟨s, hs, hlo, hhi, fun hx => ?_⟩
  rcases Nat.eq_or_lt_of_le ha with rfl | ha
  · exact h.first hx
  · exact absurd hx (h.rest x ha hb)

theorem Quiet.start (h : L.Quiet a b s) (hb : b' ≤ b) : L.Quiet a b' s :=
  ⟨h.first, fun x hx hx' => h.rest x hx (by omega)⟩

theorem Quiet.inside (h : L.Quiet a b s) (ha : a < a') (ha' : a' < b) (hb : b' ≤ b) (s' : Nat) :
    L.Quiet a' b' s' :=
  ⟨fun hx => absurd hx (h.rest a' ha ha'), fun x hx hx' => h.rest x (by omega) (by omega)⟩

end Layout

/-! ### Operators -/

section

variable {L : Layout} {a lo hi s : Nat} {m : Machine} {x y : Int32}

theorem alu_runs {op : Alu} {r r' : Reg}
    (hi' : L.image.code[a]? = some (some (.alu op .result r r'))) (hb : L.Balanced (m.goTo a)) :
    Reaches L 1 (Computed (a + 1) (compute op (m.get r) (m.get r')) lo hi m) (m.goTo a) := by
  refine Reaches.alu hi' hb (.here ⟨rfl, by simp, ?_, by simp⟩)
  exact .of_memory (by simp) (by simp) (by simp)

theorem and_ofBool (p q : Bool) : ofBool p &&& ofBool q = Value.word (p && q) := by
  cases p <;> cases q <;> rfl

theorem or_ofBool (p q : Bool) : ofBool p ||| ofBool q = Value.word (p || q) := by
  cases p <;> cases q <;> rfl

/-- both operands are turned into truth values and these are joined -/
theorem logical_runs {op : Alu}
    (hp : Placed L.image a (code [.alu .sne .left .left .zero, .alu .sne .result .result .zero,
      .alu op .result .left .result]))
    (hb : ∀ k < 3, ∀ c : Machine, c.get .stack = m.get .stack → L.Balanced (c.goTo (a + k)))
    (hz : m.get .zero = 0) (hl : m.get .left = x) (hr : m.get .result = y) :
    Reaches L 1 (Computed (a + 3) (compute op (ofBool (x != 0)) (ofBool (y != 0))) lo hi m)
      (m.goTo a) := by
  refine Reaches.alu (hp.code (k := 0) rfl) (hb 0 (by decide) _ rfl) ?_
  refine Reaches.alu (hp.code (k := 1) rfl) (hb 1 (by decide) _ (by simp)) ?_
  refine Reaches.alu (hp.code (k := 2) rfl) (hb 2 (by decide) _ (by simp))
    (.here ⟨rfl, ?_, .of_memory (by simp) (by simp) (by simp), by simp⟩)
  simp [hz, hl, hr, compute]

/-- The division goes to the trap if the divisor is zero or a remainder is left. -/
theorem division_runs (hp : Placed L.image a (Fragment.combine .div))
    (hb : ∀ k < 4, ∀ c : Machine, c.get .stack = m.get .stack → L.Balanced (c.goTo (a + k)))
    (htrap : ∃ t, L.image.address? Fragment.trapLabel = some t)
    (hs : ∃ s, m.get .stack = Int32.ofNat s ∧ L.stack ≤ s ∧ s ≤ L.top)
    (hz : m.get .zero = 0) (hl : m.get .left = x) (hr : m.get .result = y) :
    (¬ Value.Inexact .div x y → Reaches L 1 (Computed (a + 4) (x / y) lo hi m) (m.goTo a)) ∧
      (Value.Inexact .div x y → Reaches L 1 (L.Trapped m) (m.goTo a)) := by
  obtain ⟨t, ht⟩ := htrap
  by_cases hy : y = 0
  · refine ⟨fun h => absurd ⟨rfl, .inl hy⟩ h, fun _ => ?_⟩
    refine Reaches.branch_taken (hp.code (k := 0) rfl) (hb 0 (by decide) _ rfl) ?_ ht
      (.here ⟨ht, rfl, hs⟩)
    rw [hz, hr, hy]
    rfl
  by_cases hrem : x % y = 0
  · refine ⟨fun _ => ?_, fun h => absurd h fun hi => by simp [Value.Inexact, hy, hrem] at hi⟩
    refine Reaches.branch_not_taken (hp.code (k := 0) rfl) (hb 0 (by decide) _ rfl) ?_ ?_
    · rw [hz, hr]
      exact beq_eq_false_iff_ne.mpr hy
    refine Reaches.alu (hp.code (k := 1) rfl) (hb 1 (by decide) _ rfl) ?_
    refine Reaches.branch_not_taken (hp.code (k := 2) rfl) (hb 2 (by decide) _ (by simp)) ?_ ?_
    · simp [Machine.holds, compute, hl, hr, hz, hrem]
    refine Reaches.alu (hp.code (k := 3) rfl) (hb 3 (by decide) _ (by simp))
      (.here ⟨rfl, ?_, .of_memory (by simp) (by simp) (by simp), by simp⟩)
    simp [compute, hl, hr]
  · refine ⟨fun h => absurd ⟨rfl, .inr hrem⟩ h, fun _ => ?_⟩
    refine Reaches.branch_not_taken (hp.code (k := 0) rfl) (hb 0 (by decide) _ rfl) ?_ ?_
    · rw [hz, hr]
      exact beq_eq_false_iff_ne.mpr hy
    refine Reaches.alu (hp.code (k := 1) rfl) (hb 1 (by decide) _ rfl) ?_
    refine Reaches.branch_taken (hp.code (k := 2) rfl) (hb 2 (by decide) _ (by simp)) ?_ ht
      (.here ⟨ht, by simp, by simpa using hs⟩)
    simpa [Machine.holds, compute, hl, hr, hz] using hrem

/-- **An operator on two operands** puts its word into the result register, or goes to the trap. -/
theorem combine_runs {op : Operator} (hp : Placed L.image a (Fragment.combine op))
    (hb : ∀ k < size (Fragment.combine op), ∀ c : Machine, c.get .stack = m.get .stack →
      L.Balanced (c.goTo (a + k)))
    (htrap : ∃ t, L.image.address? Fragment.trapLabel = some t)
    (hs : ∃ s, m.get .stack = Int32.ofNat s ∧ L.stack ≤ s ∧ s ≤ L.top)
    (hz : m.get .zero = 0) (hl : m.get .left = x) (hr : m.get .result = y) :
    (¬ Value.Inexact op x y → Reaches L 1
        (Computed (a + size (Fragment.combine op)) (Value.combined op x y) lo hi m) (m.goTo a)) ∧
      (Value.Inexact op x y → Reaches L 1 (L.Trapped m) (m.goTo a)) := by
  have hexact : op ≠ .div → ¬ Value.Inexact op x y := fun h hi => h hi.1
  have hone : ∀ {alu : Alu} {r r' : Reg}, Fragment.combine op = code [.alu alu .result r r'] →
      compute alu (m.get r) (m.get r') = Value.combined op x y → Reaches L 1
        (Computed (a + size (Fragment.combine op)) (Value.combined op x y) lo hi m) (m.goTo a) := by
    intro alu r r' he hc
    rw [he] at hp hb ⊢
    rw [← hc]
    exact alu_runs (hp.code (k := 0) rfl) (hb 0 Nat.one_pos _ rfl)
  cases op with
  | div => exact division_runs hp hb htrap hs hz hl hr
  | and =>
    refine ⟨fun _ => ?_, fun h => absurd h (hexact (by decide))⟩
    show Reaches L 1 (Computed (a + 3) (Value.word (x != 0 && y != 0)) lo hi m) (m.goTo a)
    rw [← and_ofBool]
    exact logical_runs hp hb hz hl hr
  | or =>
    refine ⟨fun _ => ?_, fun h => absurd h (hexact (by decide))⟩
    show Reaches L 1 (Computed (a + 3) (Value.word (x != 0 || y != 0)) lo hi m) (m.goTo a)
    rw [← or_ofBool]
    exact logical_runs hp hb hz hl hr
  | add | sub | mul | eq | ne | lt | gt | le | ge =>
    refine ⟨fun _ => hone rfl ?_, fun h => absurd h (hexact (by decide))⟩
    rw [hl, hr]
    rfl

end

/-! ### Expressions -/

namespace Layout

/-- A machine that is ready to evaluate an expression with the stack pointer at `s`: the variables that
are no texts hold the integers of the store. -/
structure Ready (L : Layout) (store : Store) (s : Nat) (m : Machine) : Prop where
  intact : L.Intact m
  numbers : ∀ name ∈ L.plan.names, L.plan.isTextual name = false →
    ∃ n, store.read name = .int n ∧ m.memory[L.slot name]? = some n
  pointer : m.get .stack = Int32.ofNat s
  lower : L.stack ≤ s
  upper : s ≤ L.top

theorem slots_le_stack {L : Layout} : L.slots ≤ L.stack :=
  Nat.le_trans (Nat.le_add_right _ _) (Nat.le_add_right _ _)

theorem slot_lt_stack {L : Layout} {name : String} (h : name ∈ L.plan.names) :
    L.slot name < L.stack := Nat.lt_trans (slot_lt_buffer h) buffer_lt_stack

theorem Ready.numbers_of_memory {L : Layout} {store : Store} {s : Nat} {m m' : Machine}
    (h : L.Ready store s m) (hm : ∀ x < L.stack, m'.memory[x]? = m.memory[x]?) :
    ∀ name ∈ L.plan.names, L.plan.isTextual name = false →
      ∃ n, store.read name = .int n ∧ m'.memory[L.slot name]? = some n := by
  intro name hn ht
  obtain ⟨n, hread, hword⟩ := h.numbers name hn ht
  exact ⟨n, hread, by rw [hm _ (slot_lt_stack hn), hword]⟩

theorem Ready.kept {L : Layout} {store : Store} {s : Nat} {m m' : Machine}
    (h : L.Ready store s m) (hk : Kept L.stack s m m') : L.Ready store s m' :=
  ⟨h.intact.kept hk slots_le_stack, h.numbers_of_memory fun x hx => hk.memory x (.inl hx),
    hk.stack.trans h.pointer, h.lower, h.upper⟩

end Layout

theorem eval_binary {store : Store} {op : Operator} {left right : Expr} {x y : Int32}
    (hl : left.eval store = .ok (.int x)) (hr : right.eval store = .ok (.int y))
    (h : ¬ Value.Inexact op x y) :
    (Expr.binary op left right).eval store = .ok (.int (Value.combined op x y)) := by
  rw [Expr.eval, hl, hr]
  exact Value.apply_int h

theorem size_combine_pos (op : Operator) : 0 < size (Fragment.combine op) := by
  cases op <;> decide

theorem size_valueCode_pos {plan : Plan} {e : Expr} {code : List Line}
    (h : plan.valueCode e = .ok code) : 0 < size code := by
  induction e generalizing code with
  | int k => rw [← Except.ok.inj h]; exact Nat.one_pos
  | float x => cases h
  | text s => cases h
  | var name =>
    obtain ⟨-, -, rfl⟩ := Plan.valueCode_var_ok h
    exact Nat.succ_pos _
  | group e ih => exact ih h
  | binary op left right ihl ihr =>
    obtain ⟨first, second, -, -, rfl⟩ := Plan.valueCode_binary_ok h
    rw [size_append]
    exact Nat.lt_of_lt_of_le (size_combine_pos op) (Nat.le_add_left _ _)
  | not e ih =>
    obtain ⟨first, -, rfl⟩ := Plan.valueCode_not_ok h
    rw [size_append]
    exact Nat.lt_of_lt_of_le Nat.one_pos (Nat.le_add_left _ _)
  | round e => cases h

section

variable {L : Layout} {store : Store}

/-- what the code of an expression does, from `a` on and with the stack pointer at `s` -/
def Evaluates (L : Layout) (store : Store) (e : Expr) (a b s : Nat) (m : Machine) : Prop :=
  (¬ e.Inexact store → ∃ n, e.eval store = .ok (.int n) ∧
      Reaches L 1 (Computed b n L.stack s m) (m.goTo a)) ∧
    (e.Inexact store → Reaches L 1 (L.Trapped m) (m.goTo a))

theorem Layout.Trapped.before {m m' m'' : Machine} (h : L.Trapped m' m'')
    (ho : m'.output = m.output) : L.Trapped m m'' := ⟨h.pc, h.output.trans ho, h.stack⟩

/-- `m'` has the left operand `x` on its stack, at `t`, and otherwise differs from `m` only in what an
expression may change -/
structure Saved (L : Layout) (store : Store) (t : Nat) (x : Int32) (m m' : Machine) : Prop where
  ready : L.Ready store t m'
  saved : m'.memory[t]? = some x
  memory : ∀ w, w < L.stack ∨ t < w → m'.memory[w]? = m.memory[w]?
  output : m'.output = m.output

theorem Saved.computed {b t : Nat} {x y : Int32} {m m' m'' : Machine} (h : Saved L store t x m m')
    (hc : Computed b y L.stack t m' m'') : Saved L store t x m m'' :=
  ⟨h.ready.kept hc.kept, by rw [hc.kept.memory _ (.inr (Nat.le_refl _)), h.saved],
    fun w hw => by rw [hc.kept.memory w (by omega), h.memory w hw],
    hc.output.trans h.output⟩

theorem push_runs (hL : L.Loaded) {a t : Nat} {m m' : Machine} {x : Int32}
    (hp : Placed L.image a Fragment.save) (hq : ∀ k < 2, ¬ L.boundary (a + k))
    (hm : L.Ready store (t + 1) m) (ht : L.stack ≤ t) (h : Computed a x L.stack (t + 1) m m') :
    Reaches L 0 (fun m'' => m''.pc = a + 2 ∧ Saved L store t x m m'') m' := by
  have hr := hm.kept h.kept
  have hupper := hm.upper
  have hslots := L.slots_le_stack
  rw [machine_at h.pc]
  refine Reaches.addi (hp.code (k := 0) rfl)
    (balanced_of_not_boundary hr.pointer hr.lower hr.upper (hq 0 (by decide))) ?_
  rw [hr.pointer, ofNat_succ_sub]
  refine Reaches.sw (y := t) (hp.code (k := 1) rfl)
    (balanced_of_not_boundary (by simp) ht (by omega) (hq 1 (by decide)))
    ((hr.intact.of_memory (by simp) (by simp)).addressAt? hL (by simp) (by omega))
    ⟨by omega, by omega⟩ ?_
  generalize hc : Machine.store _ t _ = c
  have hword (w : Nat) : c.memory[w]? = if w = t then some x else m'.memory[w]? := by
    have hsize := hr.intact.size
    rw [← hc, getElem?_store (by simp only [memory_set]; omega)]
    simp [h.result]
  have hck : Kept t (t + 1) (m'.set .stack (Int32.ofNat t)) c := by
    rw [← hc]
    refine ⟨by simp, by simp, by simp, fun w hw => ?_⟩
    rw [hc, hword, if_neg (by omega), memory_set]
  have hmoved : L.Intact (m'.set .stack (Int32.ofNat t)) :=
    hr.intact.of_memory (by simp) (by simp)
  have hci : L.Intact c := hmoved.kept hck (by omega)
  refine .here ⟨rfl, ⟨⟨hci.of_memory rfl rfl, ?_, ?_, ht, by omega⟩, ?_, ?_, ?_⟩⟩
  · refine hr.numbers_of_memory fun w hw => ?_
    show c.memory[w]? = _
    rw [hword, if_neg (by omega)]
  · exact hck.stack.trans (by simp)
  · show c.memory[t]? = _
    rw [hword, if_pos rfl]
  · intro w hw
    show c.memory[w]? = _
    rw [hword, if_neg (by omega), h.kept.memory w (by omega)]
  · show c.output = _
    rw [← hc, output_store, output_set, h.output]

/-- `m'` is at the operator with both operands in their registers, and otherwise differs from `m` only in
what an expression may change -/
structure Operands (L : Layout) (b t : Nat) (x y : Int32) (m m' : Machine) : Prop where
  pc : m'.pc = b
  kept : Kept L.stack (t + 1) m m'
  output : m'.output = m.output
  left : m'.get .left = x
  right : m'.get .result = y

theorem pop_runs (hL : L.Loaded) {a t : Nat} {m m' : Machine} {x y : Int32}
    (hp : Placed L.image a Fragment.restoreLeft) (hq : ∀ k < 2, ¬ L.boundary (a + k))
    (hm : L.Ready store (t + 1) m) (hpc : m'.pc = a) (h : Saved L store t x m m')
    (hy : m'.get .result = y) : Reaches L 0 (Operands L (a + 2) t x y m) m' := by
  have hr := h.ready
  rw [machine_at hpc]
  refine Reaches.lw (hp.code (k := 0) rfl)
    (balanced_of_not_boundary hr.pointer hr.lower hr.upper (hq 0 (by decide)))
    (hr.intact.addressAt? hL hr.pointer hr.upper) h.saved ?_
  refine Reaches.addi (hp.code (k := 1) rfl)
    (balanced_of_not_boundary (by simp [hr.pointer]) hr.lower hr.upper (hq 1 (by decide))) ?_
  refine .here ⟨rfl, ⟨?_, ?_, ?_, ?_⟩, ?_, by simp, by simp [hy]⟩
  · simp [hr.intact.zero, hm.intact.zero]
  · simp [hr.pointer, hm.pointer]
  · simp [hr.intact.size, hm.intact.size]
  · intro w hw
    simp [h.memory w (by omega)]
  · simp [h.output]

theorem operator_runs (hL : L.Loaded) {op : Operator} {b t : Nat} {m m' : Machine} {x y : Int32}
    (hp : Placed L.image b (Fragment.combine op))
    (hq : ∀ k < size (Fragment.combine op), ¬ L.boundary (b + k)) (hm : L.Ready store (t + 1) m)
    (h : Operands L b t x y m m') :
    (¬ Value.Inexact op x y → Reaches L 1 (Computed (b + size (Fragment.combine op))
        (Value.combined op x y) L.stack (t + 1) m) m') ∧
      (Value.Inexact op x y → Reaches L 1 (L.Trapped m) m') := by
  obtain ⟨trap, htrap, -⟩ := hL.trap
  have hpointer : m'.get .stack = Int32.ofNat (t + 1) := h.kept.stack.trans hm.pointer
  have hbalanced : ∀ k < size (Fragment.combine op), ∀ c : Machine,
      c.get .stack = m'.get .stack → L.Balanced (c.goTo (b + k)) := fun k hk c hc =>
    balanced_of_not_boundary (hc.trans hpointer) hm.lower hm.upper (hq k hk)
  have hrun := @combine_runs L b L.stack (t + 1) m' x y op hp hbalanced ⟨trap, htrap.1⟩
    ⟨t + 1, hpointer, hm.lower, hm.upper⟩ (h.kept.zero.trans hm.intact.zero) h.left h.right
  rw [machine_at h.pc]
  constructor
  · intro hop
    refine (hrun.1 hop).imp fun m'' h' => ?_
    exact ⟨h'.pc, h'.result, h.kept.trans h'.kept, h'.output.trans h.output⟩
  · intro hop
    exact (hrun.2 hop).imp fun m'' h' => h'.before h.output

theorem binary_runs (hL : L.Loaded) {op : Operator} {left right : Expr} {first second : List Line}
    {a t : Nat} {m : Machine}
    (hp : Placed L.image a (first ++ Fragment.save ++ second ++ Fragment.restoreLeft ++
      Fragment.combine op))
    (hq : L.Quiet a (a + size (first ++ Fragment.save ++ second ++ Fragment.restoreLeft ++
      Fragment.combine op)) (t + 1))
    (hfirst : 0 < size first) (hm : L.Ready store (t + 1) m) (ht : L.stack ≤ t)
    (ihl : Evaluates L store left a (a + size first) (t + 1) m)
    (ihr : ∀ m', L.Ready store t m' → Evaluates L store right (a + size first + 2)
      (a + size first + 2 + size second) t m') :
    Evaluates L store (.binary op left right) a
      (a + size (first ++ Fragment.save ++ second ++ Fragment.restoreLeft ++
        Fragment.combine op)) (t + 1) m := by
  have hsave : size Fragment.save = 2 := rfl
  have hrestore : size Fragment.restoreLeft = 2 := rfl
  have hcombine := size_combine_pos op
  simp only [placed_append, size_append, hsave, hrestore, ← Nat.add_assoc] at hp hq ⊢
  obtain ⟨⟨⟨⟨-, hpush⟩, -⟩, hpop⟩, hcomb⟩ := hp
  by_cases hli : left.Inexact store
  · exact ⟨fun h => absurd (.inl hli) h, fun _ => ihl.2 hli⟩
  obtain ⟨x, hx, hleft⟩ := ihl.1 hli
  -- up to the code of the right operand, with the left one on the stack
  have hpushed : Reaches L 1 (fun m' => m'.pc = a + size first + 2 ∧ Saved L store t x m m')
      (m.goTo a) :=
    hleft.trans fun m' h => push_runs hL hpush (fun k hk => hq.rest _ (by omega) (by omega)) hm ht h
  by_cases hri : right.Inexact store
  · refine ⟨fun h => absurd (.inr (.inl ⟨⟨_, hx⟩, hri⟩)) h, fun _ => ?_⟩
    refine hpushed.trans fun m' ⟨hpc, hsaved⟩ => ?_
    rw [machine_at hpc]
    exact (((ihr m' hsaved.ready).2 hri).imp fun m'' h => h.before hsaved.output).uncounted
  obtain ⟨y, hy⟩ : ∃ y, right.eval store = .ok (.int y) := by
    obtain ⟨-, m', -, -, -, hsaved⟩ := hpushed
    obtain ⟨y, hy, -⟩ := (ihr m' hsaved.ready).1 hri
    exact ⟨y, hy⟩
  -- up to the operator, with both operands in their registers
  have hpopped : Reaches L 1 (Operands L (a + size first + 2 + size second + 2) t x y m)
      (m.goTo a) := by
    refine hpushed.trans fun m' ⟨hpc, hsaved⟩ => ?_
    obtain ⟨y', hy', hright⟩ := (ihr m' hsaved.ready).1 hri
    obtain rfl : y' = y := Value.int.inj (Except.ok.inj (hy'.symm.trans hy))
    rw [machine_at hpc]
    refine (hright.trans fun m'' h => ?_).uncounted
    exact pop_runs hL hpop (fun k hk => hq.rest _ (by omega) (by omega)) hm h.pc
      (hsaved.computed h) h.result
  have hcombined (m' : Machine) (h : Operands L (a + size first + 2 + size second + 2) t x y m m') :=
    operator_runs hL hcomb (fun k hk => hq.rest _ (by omega) (by omega)) hm h
  constructor
  · intro hexact
    have hop : ¬ Value.Inexact op x y := fun h => hexact (.inr (.inr ⟨x, y, hx, hy, h⟩))
    exact ⟨_, eval_binary hx hy hop, hpopped.trans fun m' h => ((hcombined m' h).1 hop).uncounted⟩
  · intro hinexact
    have hop : Value.Inexact op x y := by
      rcases hinexact with h | ⟨-, h⟩ | ⟨x', y', hx', hy', h⟩
      · exact absurd h hli
      · exact absurd h hri
      · obtain rfl : x = x' := Value.int.inj (Except.ok.inj (hx.symm.trans hx'))
        obtain rfl : y = y' := Value.int.inj (Except.ok.inj (hy.symm.trans hy'))
        exact h
    exact hpopped.trans fun m' h => ((hcombined m' h).2 hop).uncounted

/-- **The code of an expression** computes the value of the expression, unless a division that has no
integer for its answer leads it to the trap. -/
theorem valueCode_runs (hL : L.Loaded) {e : Expr} {code : List Line}
    (hc : L.plan.valueCode e = .ok code) {a s : Nat} {m : Machine} (hp : Placed L.image a code)
    (hq : L.Quiet a (a + size code) s) (hm : L.Ready store s m)
    (hdepth : L.stack + e.stackDepth ≤ s) : Evaluates L store e a (a + size code) s m := by
  induction e generalizing code a s m with
  | int n =>
    obtain rfl := Except.ok.inj hc
    refine ⟨fun _ => ⟨n, rfl, ?_⟩, fun h => h.elim⟩
    refine Reaches.li (hp.code (k := 0) rfl)
      (hq.balanced (Nat.le_refl _) (Nat.lt_succ_self _) hm.pointer hm.lower hm.upper)
      (.here ⟨rfl, by simp, .of_memory (by simp) (by simp) (by simp), by simp⟩)
  | float x => cases hc
  | text s => cases hc
  | var name =>
    obtain ⟨ht, hn, rfl⟩ := Plan.valueCode_var_ok hc
    obtain ⟨n, hread, hword⟩ := hm.numbers name hn ht
    have hslot := slot_lt_stack hn
    have htop := L.stack_le_top
    refine ⟨fun _ => ⟨n, congrArg Except.ok hread, ?_⟩, fun h => h.elim⟩
    have hq0 := hq.balanced (m := m) (x := a) (Nat.le_refl _) (Nat.lt_add_of_pos_right Nat.two_pos)
      hm.pointer hm.lower hm.upper
    refine Reaches.la (hp.code (k := 0) rfl) hq0 (hL.slot name hn) ?_
    refine Reaches.lw (y := L.slot name) (v := n) (hp.code (k := 1) rfl)
      (hq.balanced (Nat.le_succ _) (Nat.lt_succ_self _) (by simp [hm.pointer]) hm.lower hm.upper)
      ((hm.intact.of_memory (by simp) (by simp)).addressAt? hL (by simp) (by omega))
      (by simpa using hword)
      (.here ⟨rfl, by simp, .of_memory (by simp) (by simp) (by simp), by simp⟩)
  | group e ih => exact ih hc hp hq hm hdepth
  | binary op left right ihl ihr =>
    obtain ⟨first, second, hfirst, hsecond, rfl⟩ := Plan.valueCode_binary_ok hc
    have hpos := size_valueCode_pos hfirst
    have hpos' := size_valueCode_pos hsecond
    rw [Expr.stackDepth] at hdepth
    obtain ⟨t, rfl⟩ : ∃ t, s = t + 1 := ⟨s - 1, by omega⟩
    have hp' := hp
    simp only [placed_append, size_append] at hp'
    obtain ⟨⟨⟨⟨hp1, -⟩, hp2⟩, -⟩, -⟩ := hp'
    have hsize : size (first ++ Fragment.save ++ second ++ Fragment.restoreLeft ++
        Fragment.combine op) = size first + 2 + size second + 2 + size (Fragment.combine op) := by
      simp only [size_append]
      rfl
    refine binary_runs hL hp hq hpos hm (by omega)
      (ihl hfirst hp1 (hq.start (by omega)) hm (by omega)) fun m' hm' => ?_
    rw [← Nat.add_assoc] at hp2
    exact ihr hsecond hp2 (hq.inside (by omega) (by omega) (by omega) t) hm' (by omega)
  | not e ih =>
    obtain ⟨first, hfirst, rfl⟩ := Plan.valueCode_not_ok hc
    have hpos := size_valueCode_pos hfirst
    rw [placed_append] at hp
    rw [size_append] at hq ⊢
    obtain ⟨hp1, hp2⟩ := hp
    have hrun := ih hfirst hp1 (hq.start (by omega)) hm hdepth
    refine ⟨fun h => ?_, hrun.2⟩
    obtain ⟨n, hn, hreach⟩ := hrun.1 h
    refine ⟨Value.word (n == 0), ?_, hreach.trans fun m' h' => ?_⟩
    · rw [Expr.eval, hn]
      exact Value.negate_int n
    rw [machine_at h'.pc]
    have hr := hm.kept h'.kept
    refine Reaches.alu (hp2.code (k := 0) rfl) (balanced_of_not_boundary hr.pointer hr.lower
      hr.upper (hq.rest (a + size first) (by omega) (Nat.lt_succ_self _)))
      (.here ⟨rfl, ?_, h'.kept.trans (.of_memory (by simp) (by simp) (by simp)), ?_⟩)
    · simp [compute, h'.result, hr.intact.zero]
      rfl
    · simp [h'.output]
  | round e => cases hc

end

end Assembly

end TinyScript
