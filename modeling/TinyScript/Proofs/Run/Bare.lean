import TinyScript.Proofs.Bare
import TinyScript.Proofs.Run.Steps

/-!
# Runs of bare programs

A run of a program and one of its bare form take the same steps, but for those that only enter a block: the
bare run does not move then.  As only finitely many blocks are entered in a row, each of the two comes to
everything that the other comes to.

* `Run.step_bare`              a step of a run and of the bare run
* `Run.exists_advance_bare`, `Run.exists_advance_of_bare`   one run after as many steps as it takes to come
                               where the other is
* `Program.bare_equivalent`    parentheses, bare blocks and empty blocks for the other case have no effect
-/

namespace TinyScript

namespace Expr

variable (store : Store)

theorem eval_bare (e : Expr) : e.bare.eval store = e.eval store := by
  induction e with
  | group e ih => exact ih
  | binary op left right ihl ihr => rw [bare, eval, ihl, ihr, eval]
  | not e ih => rw [bare, eval, ih, eval]
  | round e ih => rw [bare, eval, ih, eval]
  | _ => rfl

theorem holds_bare (e : Expr) : e.bare.holds store = e.holds store := by
  unfold holds
  rw [eval_bare]

end Expr

/-- the run that has the bare form of the same statements left to do -/
def Run.bare (r : Run) : Run := { r with work := Stmt.bareBlock r.work }

def Progress.bare : Progress → Progress
  | .going r => .going r.bare
  | .ended o => .ended o

namespace Run

/-- with a block for the other case or without one, what is done in the other case is its bare form -/
theorem bareBlock_ite (condition : Expr) (body : Block) (other : Option Block) (work : List Stmt) :
    ∃ other', Stmt.bareBlock (.ite condition body other :: work) =
        .ite condition.bare (Stmt.bareBlock body) other' :: Stmt.bareBlock work ∧
      other'.getD [] = Stmt.bareBlock (other.getD []) := by
  cases other with
  | none => exact ⟨none, rfl, rfl⟩
  | some other =>
    refine ⟨Stmt.otherwise? (Stmt.bareBlock other), rfl, ?_⟩
    show _ = Stmt.bareBlock other
    cases Stmt.bareBlock other <;> rfl

/-- **A step of the bare run** is that of the run, unless the run only enters a block.  Then the bare run is
where it should be already, and the run has a statement less to do. -/
theorem step_bare (r : Run) :
    r.bare.step = r.step.bare ∨
      ∃ r', r.step = .going r' ∧ r'.bare = r.bare ∧ r'.weight < r.weight := by
  obtain ⟨work, store, sink⟩ := r
  cases work with
  | nil => exact .inl rfl
  | cons s work =>
    cases s with
    | assign name value =>
      left
      show step ⟨.assign name value.bare :: Stmt.bareBlock work, store, sink⟩ = _
      simp only [step, value.eval_bare]
      cases value.eval store <;> rfl
    | print value =>
      left
      show step ⟨.print value.bare :: Stmt.bareBlock work, store, sink⟩ = _
      simp only [step, value.eval_bare]
      cases value.eval store with
      | error failure => rfl
      | ok v =>
        simp only [print]
        rcases sink.write (printedLine v) with ⟨sink', _ | _⟩ <;> rfl
    | ite condition body other =>
      left
      obtain ⟨other', hwork, hother⟩ := bareBlock_ite condition body other work
      show step ⟨Stmt.bareBlock (.ite condition body other :: work), store, sink⟩ = _
      rw [hwork]
      simp only [step, condition.holds_bare]
      cases condition.holds store with
      | error failure => rfl
      | ok b =>
        cases b with
        | true =>
          show Progress.going ⟨Stmt.bareBlock body ++ Stmt.bareBlock work, store, sink⟩ =
            .going ⟨Stmt.bareBlock (body ++ work), store, sink⟩
          rw [bareBlock_append]
        | false =>
          show Progress.going ⟨other'.getD [] ++ Stmt.bareBlock work, store, sink⟩ =
            .going ⟨Stmt.bareBlock (other.getD [] ++ work), store, sink⟩
          rw [hother, bareBlock_append]
    | «while» condition body =>
      left
      show step ⟨.while condition.bare (Stmt.bareBlock body) :: Stmt.bareBlock work, store, sink⟩ = _
      simp only [step, condition.holds_bare]
      cases condition.holds store with
      | error failure => rfl
      | ok b =>
        cases b with
        | true =>
          show Progress.going ⟨Stmt.bareBlock body ++ Stmt.bareBlock (.while condition body :: work),
            store, sink⟩ = .going ⟨Stmt.bareBlock (body ++ .while condition body :: work), store, sink⟩
          rw [bareBlock_append]
        | false => rfl
    | block body =>
      right
      refine ⟨⟨body ++ work, store, sink⟩, step_block, ?_, weight_lt_of_block⟩
      show Run.mk (Stmt.bareBlock (body ++ work)) store sink = _
      rw [bareBlock_append]
      rfl

/-- whatever a run comes to, the bare run comes to the bare form of it -/
theorem exists_advance_bare (n : Nat) (r : Run) : ∃ m, r.bare.advance m = (r.advance n).bare := by
  induction n generalizing r with
  | zero => exact ⟨0, rfl⟩
  | succ n ih =>
    rcases r.step_bare with hstep | ⟨r', hr', hbare, -⟩
    · cases hr : r.step with
      | going r' =>
        rw [hr] at hstep
        obtain ⟨m, hm⟩ := ih r'
        exact ⟨m + 1, by rw [advance_succ_of_going hstep, hm, advance_succ_of_going hr]⟩
      | ended o =>
        rw [hr] at hstep
        exact ⟨1, by rw [advance_succ_of_ended hstep, advance_succ_of_ended hr]; rfl⟩
    · obtain ⟨m, hm⟩ := ih r'
      exact ⟨m, by rw [← hbare, hm, advance_succ_of_going hr']⟩

/-- The bare run comes to nothing else.  Before each of its steps the run enters blocks until it has none in
front, and there are only finitely many inside of what is left. -/
theorem exists_advance_of_bare (m : Nat) (r : Run) : ∃ n, (r.advance n).bare = r.bare.advance m := by
  induction m generalizing r with
  | zero => exact ⟨0, rfl⟩
  | succ m ih =>
    induction hw : r.weight using Nat.strongRecOn generalizing r with
    | ind w ihw =>
      subst hw
      rcases r.step_bare with hstep | ⟨r', hr', hbare, hlt⟩
      · cases hr : r.step with
        | going r' =>
          rw [hr] at hstep
          obtain ⟨n, hn⟩ := ih r'
          exact ⟨n + 1, by rw [advance_succ_of_going hr, hn, advance_succ_of_going hstep]⟩
        | ended o =>
          rw [hr] at hstep
          exact ⟨1, by rw [advance_succ_of_ended hr, advance_succ_of_ended hstep]; rfl⟩
      · obtain ⟨n, hn⟩ := ihw r'.weight hlt r' rfl
        exact ⟨n + 1, by rw [advance_succ_of_going hr', hn, hbare]⟩

/-! ### What a run comes to -/

/-- after some steps the run has ended so -/
def EndsWith (r : Run) (o : Outcome) : Prop := ∃ n, r.advance n = .ended o

/-- the run never ends -/
def Endless (r : Run) : Prop := ∀ n o, r.advance n ≠ .ended o

/-- after some steps the run goes on from these variables and this output -/
def ComesBy (r : Run) (store : Store) (sink : Sink) : Prop :=
  ∃ n work, r.advance n = .going ⟨work, store, sink⟩

variable {r : Run} {o : Outcome} {store : Store} {sink : Sink}

theorem endless_iff : r.Endless ↔ ∀ o, ¬ r.EndsWith o :=
  ⟨fun h o ⟨n, hn⟩ => h n o hn, fun h n o hn => h o ⟨n, hn⟩⟩

theorem bare_eq_ended {x : Progress} : x.bare = .ended o ↔ x = .ended o := by
  cases x with
  | going r => exact ⟨nofun, nofun⟩
  | ended o' => exact Iff.rfl

theorem bare_eq_going {x : Progress} :
    (∃ work, x.bare = .going ⟨work, store, sink⟩) ↔ ∃ work, x = .going ⟨work, store, sink⟩ := by
  cases x with
  | going r =>
    obtain ⟨work, store', sink'⟩ := r
    constructor
    · rintro ⟨_, h⟩
      cases h
      exact ⟨work, rfl⟩
    · rintro ⟨_, h⟩
      cases h
      exact ⟨_, rfl⟩
  | ended o => exact ⟨nofun, nofun⟩

theorem bare_endsWith : r.bare.EndsWith o ↔ r.EndsWith o := by
  constructor
  · rintro ⟨m, hm⟩
    obtain ⟨n, hn⟩ := r.exists_advance_of_bare m
    exact ⟨n, bare_eq_ended.mp (hn.trans hm)⟩
  · rintro ⟨n, hn⟩
    obtain ⟨m, hm⟩ := r.exists_advance_bare n
    exact ⟨m, hm.trans (bare_eq_ended.mpr hn)⟩

theorem bare_comesBy : r.bare.ComesBy store sink ↔ r.ComesBy store sink := by
  constructor
  · rintro ⟨m, hm⟩
    obtain ⟨n, hn⟩ := r.exists_advance_of_bare m
    exact ⟨n, bare_eq_going.mp (hn ▸ hm)⟩
  · rintro ⟨n, hn⟩
    obtain ⟨m, hm⟩ := r.exists_advance_bare n
    exact ⟨m, hm ▸ bare_eq_going.mpr hn⟩

end Run

/-- **Parentheses, bare blocks and empty blocks for the other case have no effect.**  Without them, at any
depth, a program has the same plan and the same listing, or fails to compile with the same failure; and from
all variables, into every stream, it ends with the same variables, output and failure, if any, or goes on
for ever as well, and comes by the same variables and output on the way.  A program that has none of them is
left as it is. -/
theorem Program.bare_equivalent (p : Program) :
    p.bare.Plain ∧ (p.bare = p ↔ p.Plain) ∧ p.bare.plan = p.plan ∧ p.bare.compile = p.compile ∧
      ∀ store sink,
        (∀ o, (p.bare.start store sink).EndsWith o ↔ (p.start store sink).EndsWith o) ∧
        ((p.bare.start store sink).Endless ↔ (p.start store sink).Endless) ∧
        ∀ store' sink', (p.bare.start store sink).ComesBy store' sink' ↔
          (p.start store sink).ComesBy store' sink' := by
  refine ⟨p.plain_bare, bare_eq_self_iff, p.plan_bare, p.compile_bare, fun store sink => ?_⟩
  have hends (o : Outcome) : (p.bare.start store sink).EndsWith o ↔ (p.start store sink).EndsWith o :=
    Run.bare_endsWith (r := p.start store sink)
  refine ⟨hends, ?_, fun store' sink' => Run.bare_comesBy (r := p.start store sink)⟩
  rw [Run.endless_iff, Run.endless_iff]
  exact forall_congr' fun o => not_congr (hends o)

/-- a block for the other case that has only an empty block in it is not there any more -/
example : Program.bare [.ite (.group (.var "x")) [.block [.print (.group (.text "a"))]]
    (some [.block []]), .block [.assign "x" (.group (.group (.int 1)))]] =
      [.ite (.var "x") [.print (.text "a")] none, .assign "x" (.int 1)] := rfl

end TinyScript
