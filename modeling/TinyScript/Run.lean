import TinyScript.Program
import TinyScript.Sink
import TinyScript.Store
import TinyScript.Value.Apply

/-!
# Running a program

A run has a list of statements that are still to be done, a store and a sink.  `Run.step` does the
first of the statements: one that contains others puts them in front of the rest, and a loop whose
condition holds puts its body and itself there.  So every step is finite, and a run that does not
end is one of which every `Run.advance` is still going on.
-/

namespace TinyScript

/-- The value of an expression.  Both operands of an operator are evaluated, the left one first. -/
def Expr.eval (store : Store) : Expr → Except Failure Value
  | .int n => .ok (.int n)
  | .float x => .ok (.float x)
  | .text s => .ok (.text s)
  | .var name => .ok (store.read name)
  | .group e => e.eval store
  | .binary op left right => do Value.apply op (← left.eval store) (← right.eval store)
  | .not e => do Value.negate (← e.eval store)
  | .round e => do Value.round (← e.eval store)

def Expr.holds (store : Store) (condition : Expr) : Except Failure Bool := do
  Value.condition (← condition.eval store)

structure Run where
  work : List Stmt
  store : Store
  sink : Sink

structure Outcome where
  store : Store
  sink : Sink
  failure : Option Failure
deriving Inhabited

inductive Progress where
  | going (r : Run)
  | ended (o : Outcome)

namespace Run

def fail (r : Run) (failure : Failure) : Progress := .ended ⟨r.store, r.sink, some failure⟩

/-- the run that goes on with `work` -/
def goOn (r : Run) (work : List Stmt) : Progress := .going { r with work }

def printedLine (v : Value) : ByteArray := (v.printed ++ "\n").toUTF8

def print (r : Run) (work : List Stmt) (v : Value) : Progress :=
  match r.sink.write (printedLine v) with
  | (sink, true) => .going { r with work, sink }
  | (sink, false) => .ended ⟨r.store, sink, some .output⟩

/-- A run with nothing left to do ends when its output is complete. -/
def finish (r : Run) : Progress :=
  .ended ⟨r.store, r.sink, if r.sink.flushFails then some .output else none⟩

def step (r : Run) : Progress :=
  match r.work with
  | [] => r.finish
  | .assign name value :: work =>
    match value.eval r.store with
    | .ok v => .going { r with work, store := r.store.set name v }
    | .error failure => r.fail failure
  | .print value :: work =>
    match value.eval r.store with
    | .ok v => r.print work v
    | .error failure => r.fail failure
  | .ite condition body other :: work =>
    match condition.holds r.store with
    | .ok true => r.goOn (body ++ work)
    | .ok false => r.goOn (other.getD [] ++ work)
    | .error failure => r.fail failure
  | .while condition body :: work =>
    match condition.holds r.store with
    | .ok true => r.goOn (body ++ .while condition body :: work)
    | .ok false => r.goOn work
    | .error failure => r.fail failure
  | .block body :: work => r.goOn (body ++ work)

/-- at most `n` steps -/
def advance : (n : Nat) → Run → Progress
  | 0, r => .going r
  | n + 1, r =>
    match r.step with
    | .going r => advance n r
    | .ended o => .ended o

theorem advance_succ (n : Nat) (r : Run) :
    advance (n + 1) r =
      match r.step with
      | .going r => advance n r
      | .ended o => .ended o := rfl

/-- a finished run stays as it is, however many more steps are allowed -/
theorem advance_of_le {n m : Nat} (h : n ≤ m) {r : Run} {o : Outcome}
    (ended : advance n r = .ended o) : advance m r = .ended o := by
  induction n generalizing m r with
  | zero => simp [advance] at ended
  | succ n ih =>
    obtain ⟨m, rfl⟩ : ∃ k, m = k + 1 := ⟨m - 1, by omega⟩
    rw [advance_succ] at ended ⊢
    cases hs : r.step with
    | going r => rw [hs] at ended; exact ih (by omega) ended
    | ended o' => rw [hs] at ended; exact ended

end Run

def Program.start (p : Program) (store : Store) (sink : Sink) : Run := ⟨p, store, sink⟩

end TinyScript
