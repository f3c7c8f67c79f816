import TinyScript.Proofs.Plan.Parts
import TinyScript.Run

/-!
# Single steps of a run

What `Run.step` does with the first statement that is left, for each kind of statement and given
what its expression evaluates to.

* `Run.step_assign`, `Run.step_print`, `Run.step_ite`, `Run.step_while`, `Run.step_block`, `Run.step_nil`
* `Run.weight_lt_of_block`   only finitely many blocks are entered in a row
* `Run.advance_preserves`    what every step preserves holds after any number of steps
* `Run.last_step`            what a run has ended with
* `Sink.Reliable`            a stream that never fails
-/

namespace TinyScript

/-- a stream that never fails, neither at a byte nor at its end -/
structure Sink.Reliable (sink : Sink) : Prop where
  capacity : sink.capacity = none
  flush : sink.flushFails = false

def Sink.add (sink : Sink) (bytes : ByteArray) : Sink :=
  { sink with written := sink.written ++ bytes }

theorem Sink.add_add (sink : Sink) (x y : ByteArray) : (sink.add x).add y = sink.add (x ++ y) := by
  unfold Sink.add
  rw [ByteArray.append_assoc]

theorem Sink.Reliable.add {sink : Sink} (h : sink.Reliable) (bytes : ByteArray) :
    (sink.add bytes).Reliable := ⟨h.capacity, h.flush⟩

theorem Sink.reliable_empty : ({} : Sink).Reliable := ⟨rfl, rfl⟩

namespace Run

variable {store : Store} {sink : Sink} {work : List Stmt} {v : Value}

theorem step_nil (hs : sink.Reliable) : step ⟨[], store, sink⟩ = .ended ⟨store, sink, none⟩ := by
  show Progress.ended ⟨store, sink, if sink.flushFails then some .output else none⟩ = _
  rw [hs.flush]
  rfl

theorem step_assign {name : String} {value : Expr} (h : value.eval store = .ok v) :
    step ⟨.assign name value :: work, store, sink⟩ = .going ⟨work, store.set name v, sink⟩ := by
  simp only [step, h]

theorem step_print {value : Expr} (h : value.eval store = .ok v) (hs : sink.Reliable) :
    step ⟨.print value :: work, store, sink⟩ =
      .going ⟨work, store, sink.add (printedLine v)⟩ := by
  simp only [step, h, print, Sink.write_of_unbounded hs.capacity, Sink.add]

theorem step_ite {condition : Expr} {body : Block} {other : Option Block} {b : Bool}
    (h : condition.holds store = .ok b) :
    step ⟨.ite condition body other :: work, store, sink⟩ =
      .going ⟨(if b then body else other.getD []) ++ work, store, sink⟩ := by
  cases b <;> simp [step, h, goOn]

theorem step_while {condition : Expr} {body : Block} {b : Bool}
    (h : condition.holds store = .ok b) :
    step ⟨.while condition body :: work, store, sink⟩ =
      .going ⟨if b then body ++ .while condition body :: work else work, store, sink⟩ := by
  cases b <;> simp [step, h, goOn]

theorem step_block {body : Block} :
    step ⟨.block body :: work, store, sink⟩ = .going ⟨body ++ work, store, sink⟩ := rfl

/-- how many statements are left, those inside of others counted as well -/
def weight (r : Run) : Nat := (Stmt.partsBlock r.work).length

/-- entering a block leaves one statement less -/
theorem weight_lt_of_block {body : Block} :
    weight ⟨body ++ work, store, sink⟩ < weight ⟨.block body :: work, store, sink⟩ := by
  show (Stmt.partsBlock (body ++ work)).length < (Stmt.partsBlock (.block body :: work)).length
  rw [partsBlock_append]
  exact Nat.lt_succ_self _

theorem advance_succ_of_going {r r' : Run} (h : r.step = .going r') (n : Nat) :
    r.advance (n + 1) = r'.advance n := by
  rw [advance_succ, h]

/-- What every step preserves holds after any number of steps. -/
theorem advance_preserves {P : Progress → Prop} (hstep : ∀ r, P (.going r) → P r.step) (n : Nat)
    {r : Run} (h : P (.going r)) : P (r.advance n) := by
  induction n generalizing r with
  | zero => exact h
  | succ n ih =>
    have hr := hstep r h
    rw [advance_succ]
    cases hs : r.step with
    | going r' => rw [hs] at hr; exact ih hr
    | ended o => rw [hs] at hr; exact hr

theorem last_step {n : Nat} {r : Run} {o : Outcome} (h : r.advance n = .ended o) :
    ∃ j r', r.advance j = .going r' ∧ r'.step = .ended o := by
  induction n generalizing r with
  | zero => cases h
  | succ n ih =>
    rw [advance_succ] at h
    cases hs : r.step with
    | going x =>
      rw [hs] at h
      obtain ⟨j, r', hj, hr'⟩ := ih h
      exact ⟨j + 1, r', (advance_succ_of_going hs j).trans hj, hr'⟩
    | ended x =>
      rw [hs] at h
      obtain rfl := Progress.ended.inj h
      exact ⟨0, r, rfl, hs⟩

theorem advance_succ_of_ended {r : Run} {o : Outcome} (h : r.step = .ended o) (n : Nat) :
    r.advance (n + 1) = .ended o := by
  rw [advance_succ, h]

end Run

end TinyScript
