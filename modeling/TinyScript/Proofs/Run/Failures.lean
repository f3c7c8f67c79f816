import TinyScript.Proofs.Except
import TinyScript.Proofs.Plan.Parts
import TinyScript.Proofs.Run.Steps
import TinyScript.Proofs.Value.Operands

/-!
# How a run can fail

A run fails when its stream does, or when an operator, a condition or a rounding meets a value that it is not
defined for.  Where there are no texts there are no such values, whatever doubles come about: only a rounding
could fail, on a double that has no nearest integer.

* `Failure.EndsRun`              the failures with which a run can end
* `Run.explained_step`           a step ends with no other
* `Program.NumbersOnly`, `Store.Numbers`   nowhere a text or a rounding, and no text in a variable
* `Run.Numeric.step`             a step of such a run does not fail and leaves it so
* `operators_and_runs_fail_only` what operators accept, how runs fail, and when they do not
-/

namespace TinyScript

/-! ## Failures of a run -/

/-- the failures with which a run can end: a value that something is not defined for, or the stream -/
inductive Failure.EndsRun : Failure → Prop
  | typeMismatch (op : Operator) (left right : Kind) : EndsRun (.typeMismatch op left right)
  | negationMismatch (operand : Kind) : EndsRun (.negationMismatch operand)
  | invalidCoercion (value : Value) (target : Coercion) : EndsRun (.invalidCoercion value target)
  | output : EndsRun .output

namespace Value

variable {v l r : Value} {op : Operator} {failure : Failure}

theorem endsRun_of_apply (h : apply op l r = .error failure) : failure.EndsRun := by
  have hverdict := verdict_apply op l r
  rw [h] at hverdict
  cases hverdict with
  | negativeCount => exact .invalidCoercion _ _
  | mismatched => exact .typeMismatch _ _ _

theorem endsRun_of_negate (h : negate v = .error failure) : failure.EndsRun := by
  unfold negate at h
  split at h
  · cases h
  · cases h
    exact .negationMismatch _

theorem endsRun_of_round (h : round v = .error failure) : failure.EndsRun := by
  unfold round at h
  split at h
  · split at h
    · split at h
      · cases h
      · cases h
        exact .invalidCoercion _ _
    · cases h
      exact .invalidCoercion _ _
  · cases h
    exact .invalidCoercion _ _

theorem endsRun_of_condition (h : condition v = .error failure) : failure.EndsRun := by
  unfold condition at h
  split at h
  · cases h
  · cases h
    exact .invalidCoercion _ _

end Value

namespace Expr

variable {store : Store} {failure : Failure}

theorem endsRun_of_eval {e : Expr} (h : e.eval store = .error failure) : failure.EndsRun := by
  induction e with
  | int n => cases h
  | float x => cases h
  | text s => cases h
  | var name => cases h
  | group e ih => exact ih h
  | binary op left right ihl ihr =>
    rw [eval] at h
    rcases error_of_bind h with hl | ⟨l, -, h⟩
    · exact ihl hl
    · rcases error_of_bind h with hr | ⟨r, -, h⟩
      · exact ihr hr
      · exact Value.endsRun_of_apply h
  | not e ih =>
    rcases error_of_bind h with he | ⟨v, -, h⟩
    · exact ih he
    · exact Value.endsRun_of_negate h
  | round e ih =>
    rcases error_of_bind h with he | ⟨v, -, h⟩
    · exact ih he
    · exact Value.endsRun_of_round h

theorem endsRun_of_holds {e : Expr} (h : e.holds store = .error failure) : failure.EndsRun := by
  rcases error_of_bind h with he | ⟨v, -, h⟩
  · exact endsRun_of_eval he
  · exact Value.endsRun_of_condition h

end Expr

/-- a run that has ended with a failure has met a value that something is not defined for, or a stream that
has failed -/
def Progress.Explained : Progress → Prop
  | .going _ => True
  | .ended o => ∀ failure, o.failure = some failure → failure.EndsRun

namespace Run

theorem explained_fail {r : Run} {failure : Failure} (h : failure.EndsRun) :
    (r.fail failure).Explained :=
  fun _ hf => Option.some.inj hf ▸ h

/-- **Every step that ends a run** does so for one of these reasons, if it fails. -/
theorem explained_step (r : Run) : r.step.Explained := by
  obtain ⟨work, store, sink⟩ := r
  cases work with
  | nil =>
    intro failure hf
    dsimp only at hf
    split at hf
    · exact Option.some.inj hf ▸ .output
    · cases hf
  | cons s work =>
    cases s with
    | assign name value =>
      simp only [step]
      cases hv : value.eval store with
      | ok v => trivial
      | error failure => exact explained_fail (Expr.endsRun_of_eval hv)
    | print value =>
      simp only [step]
      cases hv : value.eval store with
      | ok v =>
        simp only [print]
        split
        · trivial
        · exact fun _ hf => Option.some.inj hf ▸ .output
      | error failure => exact explained_fail (Expr.endsRun_of_eval hv)
    | ite condition body other =>
      simp only [step]
      cases hb : condition.holds store with
      | ok b => cases b <;> trivial
      | error failure => exact explained_fail (Expr.endsRun_of_holds hb)
    | «while» condition body =>
      simp only [step]
      cases hb : condition.holds store with
      | ok b => cases b <;> trivial
      | error failure => exact explained_fail (Expr.endsRun_of_holds hb)
    | block body => trivial

end Run

/-! ## Runs without texts -/

/-- nowhere inside the expression is a text or a rounding -/
def Expr.NumbersOnly : Expr → Prop
  | .int _ | .float _ | .var _ => True
  | .text _ | .round _ => False
  | .group e | .not e => e.NumbersOnly
  | .binary _ left right => left.NumbersOnly ∧ right.NumbersOnly

/-- what a statement itself evaluates, apart from the statements inside it, has no text and no rounding -/
def Stmt.NumbersOnly : Stmt → Prop
  | .assign _ value | .print value => value.NumbersOnly
  | .ite condition _ _ | .while condition _ => condition.NumbersOnly
  | .block _ => True

/-- the program has no text and no rounding, at any depth -/
def Program.NumbersOnly (p : Program) : Prop := ∀ s ∈ Stmt.partsBlock p, s.NumbersOnly

namespace Program.NumbersOnly

variable {s : Stmt} {work body : Block}

theorem tail (h : Program.NumbersOnly (s :: work)) : Program.NumbersOnly work :=
  fun t ht => h t (List.mem_append_right _ ht)

theorem append (hb : Program.NumbersOnly body) (hw : Program.NumbersOnly work) :
    Program.NumbersOnly (body ++ work) := by
  intro t ht
  rw [partsBlock_append, List.mem_append] at ht
  exact ht.elim (hb t) (hw t)

/-- what stands inside the first statement, together with what is left after it -/
theorem enter (h : Program.NumbersOnly (s :: work)) (hsub : Stmt.partsBlock body ⊆ s.parts) :
    Program.NumbersOnly (body ++ work) :=
  append (fun t ht => h t (List.mem_append_left _ (hsub ht))) h.tail

end Program.NumbersOnly

theorem partsBlock_subset_ite (condition : Expr) (body : Block) (other : Option Block) (b : Bool) :
    Stmt.partsBlock (if b then body else other.getD []) ⊆
      (Stmt.ite condition body other).parts := by
  cases other with
  | none =>
    cases b with
    | true => exact List.subset_cons_self _ _
    | false => exact List.nil_subset _
  | some other =>
    cases b with
    | true => exact List.subset_cons_of_subset _ (List.subset_append_left _ _)
    | false => exact List.subset_cons_of_subset _ (List.subset_append_right _ _)

/-- no variable holds a text -/
def Store.Numbers (store : Store) : Prop := ∀ name v, store.find? name = some v → v.IsNumber

section

variable {store : Store}

theorem Store.numbers_empty : Store.empty.Numbers := nofun

theorem Store.Numbers.read (h : store.Numbers) (name : String) : (store.read name).IsNumber :=
  Store.forall_read (h name) (Value.isNumber_int 0)

theorem Store.Numbers.set (h : store.Numbers) {v : Value} (hv : v.IsNumber) (name : String) :
    (store.set name v).Numbers :=
  Store.forall_set h hv

theorem Expr.NumbersOnly.hasNumber (hs : store.Numbers) {e : Expr} (he : e.NumbersOnly) :
    e.HasNumber store := by
  induction e with
  | int n => exact ⟨_, rfl, Value.isNumber_int n⟩
  | float x => exact ⟨_, rfl, Value.isNumber_float x⟩
  | text s => exact False.elim he
  | var name => exact ⟨_, rfl, hs.read name⟩
  | group e ih => exact ih he
  | binary op left right ihl ihr => exact .binary op (ihl he.1) (ihr he.2)
  | not e ih => exact .not (ih he)
  | round e => exact False.elim he

end

namespace Run

/-- a run without texts, now and in what is left to do, into a stream that does not fail -/
structure Numeric (r : Run) : Prop where
  store : r.store.Numbers
  work : Program.NumbersOnly r.work
  reliable : r.sink.Reliable

/-- a run without texts that has ended has not failed -/
def NumericProgress : Progress → Prop
  | .going r => r.Numeric
  | .ended o => o.failure = none ∧ o.store.Numbers

/-- **A step of a run without texts** does not fail, and there are none behind it. -/
theorem Numeric.step {r : Run} (h : r.Numeric) : NumericProgress r.step := by
  obtain ⟨work, store, sink⟩ := r
  obtain ⟨hs, hw, hr⟩ := h
  dsimp only at hs hw hr
  cases work with
  | nil =>
    rw [step_nil hr]
    exact ⟨rfl, hs⟩
  | cons s work =>
    have hself := hw s (List.mem_append_left _ s.mem_parts)
    cases s with
    | assign name value =>
      obtain ⟨v, hv, nv⟩ := Expr.NumbersOnly.hasNumber hs hself
      rw [step_assign hv]
      exact ⟨hs.set nv name, hw.tail, hr⟩
    | print value =>
      obtain ⟨v, hv, -⟩ := Expr.NumbersOnly.hasNumber hs hself
      rw [step_print hv hr]
      exact ⟨hs, hw.tail, hr.add _⟩
    | ite condition body other =>
      obtain ⟨b, hb⟩ := (Expr.NumbersOnly.hasNumber hs hself).holds
      rw [step_ite hb]
      exact ⟨hs, hw.enter (partsBlock_subset_ite condition body other b), hr⟩
    | «while» condition body =>
      obtain ⟨b, hb⟩ := (Expr.NumbersOnly.hasNumber hs hself).holds
      rw [step_while hb]
      cases b with
      | true =>
        have hbody : Program.NumbersOnly body :=
          fun t ht => hw t (List.mem_append_left _ (List.mem_cons_of_mem _ ht))
        exact ⟨hs, hbody.append hw, hr⟩
      | false => exact ⟨hs, hw.tail, hr⟩
    | block body =>
      rw [step_block]
      exact ⟨hs, hw.enter (List.subset_cons_self _ _), hr⟩

end Run

/-! ## Operators and runs -/

/-- **What an operator accepts, and how a run can fail.**  An operator gives a value exactly for two numbers,
for two texts that it joins, subtracts or compares for equality, and for a text with a count that is not
negative.  A negative count cannot be coerced, and all else is a mismatch.  So a run ends with no failure but
a mismatch, a coercion and one of its stream, and a run without texts and roundings never fails by itself,
whatever doubles it comes to. -/
theorem operators_and_runs_fail_only :
    (∀ op l r,
      ((∃ v, Value.apply op l r = .ok v) ↔ Value.Accepts op l r) ∧
      (Value.apply op l r = .error (.invalidCoercion r .repeatCount) ↔
        Value.CountsBelowZero op l r) ∧
      (Value.apply op l r = .error (.typeMismatch op l.kind r.kind) ↔
        ¬ Value.Accepts op l r ∧ ¬ Value.CountsBelowZero op l r)) ∧
    (∀ (p : Program) (store : Store) (sink : Sink) (n : Nat) (o : Outcome) (failure : Failure),
      (p.start store sink).advance n = .ended o → o.failure = some failure → failure.EndsRun) ∧
    (∀ (p : Program) (store : Store) (sink : Sink), p.NumbersOnly → store.Numbers → sink.Reliable →
      ∀ n, match (p.start store sink).advance n with
        | .going r => r.store.Numbers
        | .ended o => o.failure = none ∧ o.store.Numbers) := by
  refine ⟨fun op l r => ?_, fun p store sink n o failure h hf => ?_, fun p store sink hp hs hr n => ?_⟩
  · have hverdict := Value.verdict_apply op l r
    exact ⟨hverdict.ok_iff, hverdict.invalidCoercion_iff, hverdict.typeMismatch_iff⟩
  · have hrun : ((p.start store sink).advance n).Explained :=
      Run.advance_preserves (fun r _ => r.explained_step) n trivial
    rw [h] at hrun
    exact hrun failure hf
  · have hstart : Run.NumericProgress (.going (p.start store sink)) := ⟨hs, hp, hr⟩
    have hrun := Run.advance_preserves (fun _ => Run.Numeric.step) n hstart
    cases ha : (p.start store sink).advance n with
    | going r => rw [ha] at hrun; exact hrun.store
    | ended o => rw [ha] at hrun; exact hrun

/-- a program that divides by zero and subtracts the infinite quotient from itself, which is no number and
counts as false -/
def overflowing : Program :=
  [.assign "x" (.binary .div (.var "h") (.int 0)),
    .assign "y" (.binary .sub (.var "x") (.var "x")),
    .ite (.not (.var "y")) [.print (.var "y")] none]

theorem numbersOnly_overflowing : overflowing.NumbersOnly := by
  simp [Program.NumbersOnly, overflowing, Stmt.partsBlock, Stmt.parts, Stmt.NumbersOnly, Expr.NumbersOnly]

theorem operators_and_runs_fail_only_overflowing :
    Value.apply .mul (.text "a") (.int (-1)) =
      .error (.invalidCoercion (.int (-1)) .repeatCount) ∧
    Failure.EndsRun (.typeMismatch .lt .string .integer) ∧
    ∃ o, (overflowing.start (Store.empty.set "h" (.int 1)) {}).advance 5 = .ended o ∧
      o.store.find? "x" = some (.float (1 / 0)) ∧ o.sink.written = "NaN\n".toUTF8 ∧
      o.failure = none ∧ o.store.Numbers := by
  obtain ⟨hoperators, hfailures, hnumbers⟩ := operators_and_runs_fail_only
  refine ⟨?_, ?_, ?_⟩
  · exact (hoperators .mul (.text "a") (.int (-1))).2.1.mpr
      ⟨rfl, Value.isText_text "a", -1, rfl, by decide⟩
  · exact hfailures [.print (.binary .lt (.text "a") (.int 1))] .empty {} 1 _ _ rfl rfl
  · have hrun := hnumbers overflowing (Store.empty.set "h" (.int 1)) {} numbersOnly_overflowing
      (Store.numbers_empty.set (Value.isNumber_int _) "h") Sink.reliable_empty 5
    obtain ⟨o, ho, hx, hwritten⟩ : ∃ o,
        (overflowing.start (Store.empty.set "h" (.int 1)) {}).advance 5 = .ended o ∧
        o.store.find? "x" = some (.float (1 / 0)) ∧ o.sink.written = "NaN\n".toUTF8 := by
      refine ⟨_, rfl, ?_, ?_⟩
      · decide +kernel
      · decide +kernel
    rw [ho] at hrun
    exact ⟨o, ho, hx, hwritten, hrun⟩

end TinyScript
