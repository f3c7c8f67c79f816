import TinyScript.Proofs.Compile.Listing

/-!
# A compiled program does what its run does

The machine that has loaded the listing of a program prints what the run of the program prints, ends if the
run ends and goes on for ever if the run does.  At the first division that has no integer for its answer it
prints a message in place of the rest and stops.

* `Simulates.advance`, `Simulates.ends`, `Simulates.endless`   the machine over many steps of the run
* `Program.NulFree`          no text that is assigned to a variable has a zero character
* `Program.DoneBy`           what it means that a machine does what a program says
* `compiled_program_done`    the machine with the listing of a program does what the program says
-/

namespace TinyScript

open Assembly Machine Layout

/-! ### Many steps -/

namespace Assembly.Simulates

variable {L : Layout} (hL : L.Loaded) (hr : L.plan.Regular) {r : Run} {m : Machine}

include hL hr

/-- as long as every division has an integer for its answer, the machine comes along -/
theorem advance (h : Simulates L r m) {n : Nat} {r' : Run} (hn : r.advance n = .going r')
    (hexact : ∀ j < n, ∀ x, r.advance j = .going x → ¬ x.Inexact) :
    Reaches L 0 (Simulates L r') m := by
  induction n generalizing r m with
  | zero =>
    obtain rfl := Progress.going.inj hn
    exact .here h
  | succ n ih =>
    have hnext {x : Run} (hx : r.step = .going x) (hm : Reaches L 0 (Simulates L x) m) :
        Reaches L 0 (Simulates L r') m := by
      rw [Run.advance_succ_of_going hx] at hn
      refine hm.trans fun m' h' => ih h' hn fun j hj y hy => ?_
      exact hexact (j + 1) (Nat.succ_lt_succ hj) y ((Run.advance_succ_of_going hx j).trans hy)
    cases h.proceeds hL hr with
    | trap hi hm => exact absurd hi (hexact 0 (Nat.succ_pos n) r rfl)
    | finish hi hx hm => rw [Run.advance_succ_of_ended hx] at hn; cases hn
    | perform hi hx hm => exact hnext hx hm.uncounted
    | enter hi hx hw hm => exact hnext hx hm

theorem ends (h : Simulates L r m) {o : Outcome} (hstep : r.step = .ended o) (hexact : ¬ r.Inexact) :
    Reaches L 0 (Halting L o.sink.written) m := by
  cases h.proceeds hL hr with
  | trap hi hm => exact absurd hi hexact
  | finish _ hx hm =>
    obtain rfl := Progress.ended.inj (hx.symm.trans hstep)
    exact hm
  | perform _ hx hm => cases hx.symm.trans hstep
  | enter _ hx _ hm => cases hx.symm.trans hstep

theorem traps (h : Simulates L r m) (hi : r.Inexact) :
    Reaches L 0 (Halting L (r.sink.written ++ Fragment.trapMessage.toUTF8)) m := by
  cases h.proceeds hL hr with
  | trap _ hm => exact hm
  | finish hx _ _ => exact absurd hi hx
  | perform hx _ _ => exact absurd hi hx
  | enter hx _ _ _ => exact absurd hi hx

/-- The machine never stops if the run never does: for every number of instructions it follows the run so
far and farther.  A block takes no instruction, but only finitely many blocks are entered in a row. -/
theorem endless (h : Simulates L r m) (hgo : ∀ n, ∃ x, r.advance n = .going x ∧ ¬ x.Inexact)
    (k : Nat) :
    ∃ n r', r.advance n = .going r' ∧ Reaches L k (Simulates L r') m := by
  induction k generalizing r m with
  | zero => exact ⟨0, r, rfl, .here h⟩
  | succ k ih =>
    induction hw : r.weight using Nat.strongRecOn generalizing r m with
    | ind w ihw =>
      subst hw
      have hrest {x : Run} (hx : r.step = .going x) :
          ∀ n, ∃ y, x.advance n = .going y ∧ ¬ y.Inexact := by
        intro n
        obtain ⟨y, hy, hi⟩ := hgo (n + 1)
        exact ⟨y, (Run.advance_succ_of_going hx n).symm.trans hy, hi⟩
      cases h.proceeds hL hr with
      | trap hi hm =>
        obtain ⟨x, hx, hn⟩ := hgo 0
        obtain rfl := Progress.going.inj hx
        exact absurd hi hn
      | finish hi hx hm =>
        obtain ⟨y, hy, -⟩ := hgo 1
        rw [Run.advance_succ_of_ended hx] at hy
        cases hy
      | @perform x hi hx hm =>
        obtain ⟨j, m', hj, ht, hm'⟩ := hm
        obtain ⟨n, y, hn, i, m'', hi', ht', hm''⟩ := ih hm' (hrest hx)
        exact ⟨n + 1, y, (Run.advance_succ_of_going hx n).trans hn, j + i, m'', by omega,
          ht.trans ht', hm''⟩
      | @enter x hi hx hlt hm =>
        obtain ⟨j, m', hj, ht, hm'⟩ := hm
        obtain ⟨n, y, hn, hreach⟩ := ihw x.weight hlt hm' (hrest hx) rfl
        exact ⟨n + 1, y, (Run.advance_succ_of_going hx n).trans hn, .after ht hreach⟩

end Assembly.Simulates

/-- a machine that is about to stop has stopped after one more instruction -/
theorem Assembly.Reaches.halted {L : Layout} {w : ByteArray} {m : Machine}
    (h : Reaches L 0 (Halting L w) m) (hc : L.Clean) :
    ∃ k x, Machine.run L.image k m = .halted x ∧ x.output = w := by
  obtain ⟨k, m', -, ht, hm'⟩ := h
  have hstep : Machine.step L.image m' = .halted m' := by
    unfold Machine.step
    rw [hm'.stop]
    rfl
  refine ⟨k + 1, m', ?_, hm'.output hc⟩
  rw [ht.run_add, Machine.run, hstep]

/-! ### The whole program -/

/-- no text that the program assigns to a variable has a zero character -/
def Program.NulFree (p : Program) : Prop :=
  ∀ name value text, Stmt.assign name value ∈ Stmt.partsBlock p → value.text? = some text →
    '\x00' ∉ text.toList

/-- What it means that a machine does what a program says.  The run of the program starts with no variable
assigned and an empty stream. -/
structure Program.DoneBy (p : Program) (image : Image) (m : Machine) : Prop where
  /-- if the run ends and every division up to then has an integer for its answer, the machine stops with the
  same output -/
  ends : ∀ n o, (p.start .empty {}).advance n = .ended o →
    (∀ j r, (p.start .empty {}).advance j = .going r → ¬ r.Inexact) →
    ∃ k x, Machine.run image k m = .halted x ∧ x.output = o.sink.written
  /-- At the first statement or condition with a division that has no integer for its answer the machine
  reports this, behind what was printed before, and stops. -/
  traps : ∀ n r, (p.start .empty {}).advance n = .going r → r.Inexact →
    (∀ j < n, ∀ x, (p.start .empty {}).advance j = .going x → ¬ x.Inexact) →
    ∃ k x, Machine.run image k m = .halted x ∧
      x.output = r.sink.written ++ "error: division result is not an integer\n".toUTF8
  /-- if the run never ends nor meets such a division, neither does the machine, what it has printed at any
  time is what the run prints up to some point, and everything that the run prints is printed -/
  endless : (∀ n, ∃ r, (p.start .empty {}).advance n = .going r ∧ ¬ r.Inexact) →
    (∀ k, ∃ x, Machine.run image k m = .running x ∧
      ∃ n r rest, (p.start .empty {}).advance n = .going r ∧ r.sink.written = x.output ++ rest) ∧
    ∀ n r, (p.start .empty {}).advance n = .going r →
      ∃ k x, Machine.run image k m = .running x ∧ x.output = r.sink.written

section

variable {p : Program} {lines : List Line} {L : Layout}

theorem Opens.clean (h : Opens p lines L) (hn : p.NulFree) : L.Clean := by
  intro name text e he hz
  rw [h.plan] at he
  obtain ⟨value, hm, hv⟩ := Plan.assigned_of_entryFor? he
  rw [Pool.bytes_of_entry? he] at hz
  exact hn name value text hm hv (zero_mem_toUTF8 hz)

theorem Opens.doneBy (h : Opens p lines L) (hn : p.NulFree) :
    p.DoneBy (Image.ofLines lines) L.image.initial := by
  have hL := h.loaded
  have hr := h.regular
  have hs := h.simulates
  have hc := h.clean hn
  refine ⟨fun n o ho hexact => ?_, fun n r hgo hi hfirst => ?_,
    fun hgo => ⟨fun k => ?_, fun n r hr' => ?_⟩⟩
  · obtain ⟨j, r, hgo, hend⟩ := Run.last_step ho
    have hreach := hs.advance hL hr hgo fun i _ x hx => hexact i x hx
    obtain ⟨k, x, hk, hx⟩ :=
      (hreach.trans fun m' h' => h'.ends hL hr hend (hexact j r hgo)).halted hc
    exact ⟨k + 1, x, (h.run k).trans hk, hx⟩
  · have hreach := hs.advance hL hr hgo hfirst
    obtain ⟨k, x, hk, hx⟩ := (hreach.trans fun m' h' => h'.traps hL hr hi).halted hc
    exact ⟨k + 1, x, (h.run k).trans hk, hx⟩
  · obtain ⟨n, r, hn, j, m', hj, ht, hm'⟩ := hs.endless hL hr hgo k
    have hend := (h.run j).trans ht.run
    obtain ⟨x, hx, hcontinues⟩ := Continues.run_of_le (Nat.le_succ_of_le hj) hend
    obtain ⟨rest, hrest⟩ := hcontinues.output
    exact ⟨x, hx, n, r, rest, hn, (hm'.represents.output hc).symm.trans hrest⟩
  · have hexact : ∀ j < n, ∀ x, (p.start .empty {}).advance j = .going x → ¬ x.Inexact := by
      intro j _ x hx
      obtain ⟨y, hy, hi⟩ := hgo j
      obtain rfl := Progress.going.inj (hy.symm.trans hx)
      exact hi
    obtain ⟨k, m', -, ht, hm'⟩ := hs.advance hL hr hr' hexact
    exact ⟨k + 1, m', (h.run k).trans ht.run, hm'.represents.output hc⟩

end

/-- **A compiled program does what its run does.**  The machine that has loaded the listing, in fewer than
2³¹ words, stops with the output of the run if the run ends, goes on for ever if the run does, and reports
the first division that has no integer for its answer. -/
theorem compiled_program_done {p : Program} {lines : List Line} (h : p.compile = .ok lines)
    (hsize : size lines < 2 ^ 31) (hn : p.NulFree) :
    ∃ m, Machine.start? (Image.ofLines lines) "main" = some m ∧
      p.DoneBy (Image.ofLines lines) m := by
  obtain ⟨L, hL⟩ := opens_of_compile h hsize
  exact ⟨_, hL.start?, hL.doneBy hn⟩

/-- A countdown with a text variable that is printed before it is assigned, a nested expression, and at last
a division that leaves a remainder. -/
def countdown : Program :=
  [.assign "i" (.int 2),
    .while (.var "i")
      [.print (.var "s"), .assign "s" (.group (.text "go")),
        .ite (.binary .eq (.binary .sub (.int 3) (.binary .mul (.var "i") (.int 1))) (.int 1))
          [.print (.text "first")] none,
        .assign "i" (.binary .sub (.var "i") (.int 1))],
    .print (.binary .div (.int 7) (.int 2))]

theorem nulFree_countdown : countdown.NulFree := by
  intro name value text hm hv
  simp [countdown, Stmt.partsBlock, Stmt.parts] at hm
  rcases hm with ⟨rfl, rfl⟩ | ⟨rfl, rfl⟩ | ⟨rfl, rfl⟩
  · cases hv
  · obtain rfl := Option.some.inj hv
    decide
  · cases hv

def countdownListing : List Line := countdown.compile.toOption.getD []

theorem compiled_program_done_countdown :
    countdown.compile = .ok countdownListing ∧ size countdownListing < 2 ^ 31 ∧ countdown.NulFree ∧
      ∃ m, Machine.start? (Image.ofLines countdownListing) "main" = some m ∧
        countdown.DoneBy (Image.ofLines countdownListing) m ∧
        ∃ k x, Machine.run (Image.ofLines countdownListing) k m = .halted x ∧
          x.output = "0\nfirst\ngo\nerror: division result is not an integer\n".toUTF8 := by
  have h : countdown.compile = .ok countdownListing := rfl
  have hsize : size countdownListing < 2 ^ 31 := by decide +kernel
  obtain ⟨m, hstart, hdone⟩ := compiled_program_done h hsize nulFree_countdown
  have hinitial : Machine.start? (Image.ofLines countdownListing) "main" =
      some (Image.ofLines countdownListing).initial := rfl
  have hfinal : (Machine.run (Image.ofLines countdownListing) 250
      (Image.ofLines countdownListing).initial).final? =
        some "0\nfirst\ngo\nerror: division result is not an integer\n".toUTF8 := by
    decide +kernel
  obtain ⟨x, hx, houtput⟩ := Step.halted_of_final? hfinal
  obtain rfl := Option.some.inj (hinitial.symm.trans hstart)
  exact ⟨h, hsize, nulFree_countdown, _, hstart, hdone, 250, x, hx, houtput⟩

end TinyScript
