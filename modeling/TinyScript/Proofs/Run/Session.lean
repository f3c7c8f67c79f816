import TinyScript.Proofs.Except
import TinyScript.Proofs.Interchange
import TinyScript.Proofs.Run.Bounded
import TinyScript.Proofs.Value.Demoted

/-!
# Sessions

A session runs one program after the other.  Each of them starts with the variables and the stream that
the one before it has left, also if that one has failed.

* `Session`                    the points that a session comes to
* `Value.Literal`, `Store.Literal`, `Run.Literal`   only literals are doubles that could be integers
* `Run.literal_step`           what a step preserves
* `Session.literal`            what a session preserves
* `session_values_demoted`     the values that a session keeps and prints
-/

namespace TinyScript

/-- A session that has started the programs `ran` comes to a point of the last one. -/
inductive Session : (ran : List Program) → Progress → Prop where
  | first (p : Program) (sink : Sink) : Session [p] (.going (p.start .empty sink))
  | step {ran : List Program} {r : Run} : Session ran (.going r) → Session ran r.step
  | next {ran : List Program} {o : Outcome} (p : Program) :
      Session ran (.ended o) → Session (ran ++ [p]) (.going (p.start o.store o.sink))

namespace Progress

def store : Progress → Store
  | .going r => r.store
  | .ended o => o.store

/-- the value that the next step prints, if there is a next step -/
def printed? : Progress → Option Value
  | .going r => r.printed?.map Prod.fst
  | .ended _ => none

end Progress

/-! ### Doubles of a session -/

theorem Stmt.floatsBlock_append (a b : Block) :
    Stmt.floatsBlock (a ++ b) = Stmt.floatsBlock a ++ Stmt.floatsBlock b := by
  induction a with
  | nil => rfl
  | cons s a ih => simp [Stmt.floatsBlock, ih]

/-- The value is one of these doubles if an integer could stand for it. -/
def Value.Literal (floats : List Float) (v : Value) : Prop :=
  v.Demoted ∨ ∃ x ∈ floats, v = .float x

def Store.Literal (floats : List Float) (store : Store) : Prop :=
  ∀ name v, store.find? name = some v → v.Literal floats

structure Run.Literal (floats : List Float) (r : Run) : Prop where
  store : r.store.Literal floats
  work : Stmt.floatsBlock r.work ⊆ floats

def Progress.Literal (floats : List Float) : Progress → Prop
  | .going r => r.Literal floats
  | .ended o => o.store.Literal floats

section

variable {floats : List Float} {store : Store} {v : Value}

theorem Value.Literal.mono {more : List Float} (h : v.Literal floats) (hsub : floats ⊆ more) :
    v.Literal more :=
  h.imp id fun ⟨x, hx, hv⟩ => ⟨x, hsub hx, hv⟩

theorem Store.Literal.mono {more : List Float} (h : store.Literal floats) (hsub : floats ⊆ more) :
    store.Literal more :=
  fun name v hv => (h name v hv).mono hsub

theorem Store.literal_empty : Store.empty.Literal floats := nofun

theorem Store.Literal.read (h : store.Literal floats) (name : String) :
    (store.read name).Literal floats :=
  Store.forall_read (h name) (.inl (Value.demoted_int 0))

theorem Store.Literal.set (h : store.Literal floats) (hv : v.Literal floats) (name : String) :
    (store.set name v).Literal floats :=
  Store.forall_set h hv

/-- An expression has a double that could be an integer only from its literals and its variables. -/
theorem Expr.literal_eval (hs : store.Literal floats) {e : Expr} (he : e.floats ⊆ floats)
    (h : e.eval store = .ok v) : v.Literal floats := by
  induction e generalizing v with
  | int n =>
    cases h
    exact .inl (Value.demoted_int n)
  | float x =>
    cases h
    exact .inr ⟨x, he (List.mem_singleton_self x), rfl⟩
  | text s =>
    cases h
    exact .inl (Value.demoted_text s)
  | var name =>
    cases h
    exact hs.read name
  | group e ih => exact ih he h
  | binary op left right _ _ =>
    simp only [Expr.eval] at h
    obtain ⟨a, -, h⟩ := ok_of_bind h
    obtain ⟨b, -, h⟩ := ok_of_bind h
    exact .inl (Value.demoted_apply h)
  | not e _ =>
    obtain ⟨a, -, h⟩ := ok_of_bind h
    exact .inl (Value.demoted_negate h)
  | round e _ =>
    obtain ⟨a, -, h⟩ := ok_of_bind h
    exact .inl (Value.demoted_round h)

end

/-! ### Steps -/

theorem Run.literal_step {floats : List Float} {r : Run} (h : r.Literal floats) :
    r.step.Literal floats := by
  obtain ⟨work, store, sink⟩ := r
  obtain ⟨hs, hw⟩ := h
  cases work with
  | nil => exact hs
  | cons s work =>
    dsimp only at hs hw
    cases s with
    | assign name value =>
      obtain ⟨hvalue, hwork⟩ := List.append_subset.mp hw
      simp only [step]
      cases hv : value.eval store with
      | ok v => exact ⟨hs.set (Expr.literal_eval hs hvalue hv) name, hwork⟩
      | error failure => exact hs
    | print value =>
      obtain ⟨-, hwork⟩ := List.append_subset.mp hw
      simp only [step]
      cases value.eval store with
      | ok v =>
        simp only [print]
        split
        · exact ⟨hs, hwork⟩
        · exact hs
      | error failure => exact hs
    | ite condition body other =>
      have hblocks : Stmt.floatsBlock body ⊆ floats ∧ Stmt.floatsBlock (other.getD []) ⊆ floats ∧
          Stmt.floatsBlock work ⊆ floats := by
        obtain ⟨hstmt, hwork⟩ := List.append_subset.mp hw
        cases other with
        | none => exact ⟨(List.append_subset.mp hstmt).2, List.nil_subset _, hwork⟩
        | some other =>
          obtain ⟨hbody, hother⟩ := List.append_subset.mp (List.append_subset.mp hstmt).2
          exact ⟨hbody, hother, hwork⟩
      obtain ⟨hbody, hother, hwork⟩ := hblocks
      simp only [step]
      cases condition.holds store with
      | ok b =>
        cases b with
        | true => exact ⟨hs, Stmt.floatsBlock_append _ _ ▸ List.append_subset.mpr ⟨hbody, hwork⟩⟩
        | false => exact ⟨hs, Stmt.floatsBlock_append _ _ ▸ List.append_subset.mpr ⟨hother, hwork⟩⟩
      | error failure => exact hs
    | «while» condition body =>
      obtain ⟨hloop, hwork⟩ := List.append_subset.mp hw
      obtain ⟨-, hbody⟩ := List.append_subset.mp hloop
      simp only [step]
      cases condition.holds store with
      | ok b =>
        cases b with
        | true => exact ⟨hs, Stmt.floatsBlock_append _ _ ▸ List.append_subset.mpr ⟨hbody, hw⟩⟩
        | false => exact ⟨hs, hwork⟩
      | error failure => exact hs
    | block body =>
      obtain ⟨hbody, hwork⟩ := List.append_subset.mp hw
      exact ⟨hs, Stmt.floatsBlock_append _ _ ▸ List.append_subset.mpr ⟨hbody, hwork⟩⟩

theorem Run.literal_printed {floats : List Float} {r : Run} (h : r.Literal floats) {v : Value}
    {work : List Stmt} (hv : r.printed? = some (v, work)) : v.Literal floats := by
  obtain ⟨value, hwork, heval⟩ := Run.printed?_eq_some hv
  have hw := h.work
  rw [hwork] at hw
  exact Expr.literal_eval h.store (List.append_subset.mp hw).1 heval

namespace Session

variable {ran : List Program} {progress : Progress}

/-- A session comes to every point that its last program comes to. -/
theorem advance {r : Run} (h : Session ran (.going r)) (n : Nat) : Session ran (r.advance n) :=
  Run.advance_preserves (fun _ => .step) n h

/-- By induction over the session; a program that starts adds its doubles to those of the others. -/
theorem literal (h : Session ran progress) : progress.Literal (ran.flatMap Program.floats) := by
  induction h with
  | first p sink =>
    refine ⟨Store.literal_empty, ?_⟩
    rw [List.flatMap_singleton]
    exact List.Subset.refl _
  | step _ ih => exact Run.literal_step ih
  | next p _ ih =>
    rw [List.flatMap_append, List.flatMap_singleton]
    exact ⟨Store.Literal.mono ih (List.subset_append_left _ _), List.subset_append_right _ _⟩

theorem literal_printed (h : Session ran progress) {v : Value} (hv : progress.printed? = some v) :
    v.Literal (ran.flatMap Program.floats) := by
  cases progress with
  | going r =>
    obtain ⟨⟨_, work⟩, hnext, rfl⟩ := Option.map_eq_some_iff.mp hv
    exact Run.literal_printed h.literal hnext
  | ended o => cases hv

theorem literal_store (h : Session ran progress) :
    progress.store.Literal (ran.flatMap Program.floats) := by
  cases progress with
  | going r => exact (h.literal : r.Literal _).store
  | ended o => exact h.literal

end Session

theorem Value.literal_flatMap_iff {ran : List Program} {v : Value} :
    v.Literal (ran.flatMap Program.floats) ↔
      v.Demoted ∨ ∃ p ∈ ran, ∃ x ∈ Program.floats p, v = .float x := by
  simp only [Value.Literal, List.mem_flatMap]
  refine or_congr_right ⟨fun ⟨x, ⟨p, hp, hx⟩, hv⟩ => ⟨p, hp, x, hx, hv⟩,
    fun ⟨p, hp, x, hx, hv⟩ => ⟨x, ⟨p, hp, hx⟩, hv⟩⟩

/-- **Doubles that could be integers are literals.**  At every point of a session, also behind a program
that has failed, a value of a variable and a value that is printed is a double that an integer could stand
for only if it is a literal of one of the programs so far.  No operator, no negation and no rounding gives
such a double, whatever its operands are. -/
theorem session_values_demoted {ran : List Program} {progress : Progress}
    (h : Session ran progress) :
    (∀ name v, progress.store.find? name = some v →
      v.Demoted ∨ ∃ p ∈ ran, ∃ x ∈ Program.floats p, v = .float x) ∧
    (∀ v, progress.printed? = some v →
      v.Demoted ∨ ∃ p ∈ ran, ∃ x ∈ Program.floats p, v = .float x) ∧
    (∀ op left right v, Value.apply op left right = .ok v → v.Demoted) ∧
    (∀ u v, Value.negate u = .ok v → v.Demoted) ∧
    ∀ u v, Value.round u = .ok v → v.Demoted :=
  ⟨fun name v hv => Value.literal_flatMap_iff.mp (h.literal_store name v hv),
    fun _ hv => Value.literal_flatMap_iff.mp (h.literal_printed hv),
    fun _ _ _ _ => Value.demoted_apply, fun _ _ => Value.demoted_negate,
    fun _ _ => Value.demoted_round⟩

/-- a program that keeps a whole double and an integer made of two doubles, and fails -/
def halves : Program :=
  [.assign "x" (.float 2.0), .assign "y" (.binary .add (.float 1.5) (.float 0.5)),
    .print (.not (.text "s"))]

/-- a program that prints what it finds in a variable -/
def display : Program := [.print (.var "x")]

theorem session_values_demoted_halves :
    ∃ progress, Session [halves, display] progress ∧ progress.printed? = some (.float 2.0) ∧
      progress.store.find? "y" = some (.int 2) ∧ (Value.int 2).Demoted ∧
      ((Value.float 2.0).Demoted ∨
        ∃ p ∈ [halves, display], ∃ x ∈ Program.floats p, Value.float 2.0 = .float x) := by
  have hfirst : Session [halves] ((halves.start .empty {}).advance 3) := (Session.first _ _).advance 3
  obtain ⟨o, hended, hx, hy⟩ : ∃ o, (halves.start .empty {}).advance 3 = .ended o ∧
      o.store.find? "x" = some (.float 2.0) ∧ o.store.find? "y" = some (.int 2) := by
    refine ⟨_, rfl, ?_, ?_⟩ <;> decide +kernel
  rw [hended] at hfirst
  have hsession := hfirst.next display
  have hprinted : (Progress.going (display.start o.store o.sink)).printed? = some (.float 2.0) := by
    simp [Progress.printed?, Run.printed?, Program.start, display, Expr.eval, Store.read, hx]
  obtain ⟨-, hvalues, hoperators, -⟩ := session_values_demoted hsession
  exact ⟨_, hsession, hprinted, hy,
    hoperators .add (.float 1.5) (.float 0.5) _ (by decide +kernel), hvalues _ hprinted⟩

end TinyScript
