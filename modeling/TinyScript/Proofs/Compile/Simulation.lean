import TinyScript.Proofs.Compile.Statement

/-!
# A machine follows a run

A machine stands where the code does what the run has still to do, and its memory and output are those of
the run.  This stays so while the run goes on, and the machine ends as the run does.

* `Follows`             the code from an address on does the statements that are left
* `Run.Inexact`         the next statement meets a division that has no integer for its answer
* `Simulates`           a machine that follows a run
* `Proceeds`            what a machine that follows a run does for one step of the run
* `Simulates.proceeds`  every machine that follows a run does so
-/

namespace TinyScript

/-- Doing a statement, up to the statements inside of it, meets a division of integers by zero or with a
remainder. -/
def Stmt.Inexact (store : Store) : Stmt → Prop
  | .assign _ value | .print value => value.Inexact store
  | .ite condition _ _ | .while condition _ => condition.Inexact store
  | .block _ => False

namespace Run

/-- the next statement meets such a division -/
def Inexact (r : Run) : Prop := ∃ s work, r.work = s :: work ∧ s.Inexact r.store

theorem inexact_cons {s : Stmt} {work : List Stmt} {store : Store} {sink : Sink} :
    Inexact ⟨s :: work, store, sink⟩ ↔ s.Inexact store := by
  constructor
  · rintro ⟨s', work', h, hi⟩
    obtain ⟨rfl, -⟩ := List.cons.inj h
    exact hi
  · exact fun hi => ⟨s, work, rfl, hi⟩

theorem not_inexact_nil {store : Store} {sink : Sink} : ¬ Inexact ⟨[], store, sink⟩ := by
  rintro ⟨s, work, h, -⟩
  cases h

end Run

namespace Assembly

open Machine Layout

/-! ### What is left to do -/

/-- From the address on the code does the statements that are left, one after the other and perhaps over
jumps, and comes to an end. -/
inductive Follows (L : Layout) : (a : Nat) → List Stmt → Prop
  | done {a : Nat} (h : L.image.code[a]? = some (some .ebreak)) : Follows L a []
  | stmt {n a b : Nat} {s : Stmt} {work : List Stmt} (h : L.StmtAt n a s b) (rest : Follows L b work) :
      Follows L a (s :: work)
  | jump {a b : Nat} {work : List Stmt} {label : String}
      (h : L.image.code[a]? = some (some (.jal .zero label))) (hb : L.image.address? label = some b)
      (rest : Follows L b work) : Follows L a work

variable {L : Layout} {n a b : Nat} {work : List Stmt} {m : Machine}

theorem Follows.append {body : Block} (h : L.BlockAt n a body b) (rest : Follows L b work) :
    Follows L a (body ++ work) := by
  induction body generalizing n a with
  | nil =>
    obtain rfl := h.eq_of_nil
    exact rest
  | cons s ss ih =>
    obtain ⟨c, hs, hss⟩ := h.cons
    exact .stmt hs (ih hss)

/-- the same without a jump in front -/
def Begins (L : Layout) (a : Nat) : List Stmt → Prop
  | [] => L.image.code[a]? = some (some .ebreak)
  | s :: work => ∃ n b, L.StmtAt n a s b ∧ Follows L b work

theorem Follows.settle {store : Store} {sink : Sink} (h : Follows L a work)
    (hm : Represents L store sink m) :
    Reaches L 0 (fun m' => Begins L m'.pc work ∧ Represents L store sink m') (m.goTo a) := by
  induction h with
  | done h => exact .here ⟨h, hm.goTo _⟩
  | stmt h rest _ => exact .here ⟨⟨_, _, h, rest⟩, hm.goTo _⟩
  | jump h hb _ ih =>
    refine Reaches.jal h (balanced_of_top hm.pointer) hb ?_
    rw [set_zero]
    exact ih

/-! ### One step -/

/-- a machine that is about to stop, with its output -/
structure Halting (L : Layout) (written : ByteArray) (m : Machine) : Prop where
  stop : L.image.code[m.pc]? = some (some .ebreak)
  balanced : L.Balanced m
  output : L.Clean → m.output = written

structure Simulates (L : Layout) (r : Run) (m : Machine) : Prop where
  follows : Follows L m.pc r.work
  represents : Represents L r.store r.sink m

/-- what a machine does for one step of the run that it follows -/
inductive Proceeds (L : Layout) (r : Run) (m : Machine) : Prop
  /-- it reports that a division has no integer for its answer -/
  | trap (hi : r.Inexact)
      (hm : Reaches L 0 (Halting L (r.sink.written ++ Fragment.trapMessage.toUTF8)) m)
  /-- it ends with the run -/
  | finish {o : Outcome} (hi : ¬ r.Inexact) (h : r.step = .ended o)
      (hm : Reaches L 0 (Halting L o.sink.written) m)
  /-- it does the next statement -/
  | perform {r' : Run} (hi : ¬ r.Inexact) (h : r.step = .going r')
      (hm : Reaches L 1 (Simulates L r') m)
  /-- it does nothing, because the next statement is a block -/
  | enter {r' : Run} (hi : ¬ r.Inexact) (h : r.step = .going r') (hw : r'.weight < r.weight)
      (hm : Reaches L 0 (Simulates L r') m)

theorem Layout.Trapped.halts (hL : L.Loaded) {store : Store} {sink : Sink} {m' : Machine}
    (hm : Represents L store sink m) (h : L.Trapped m m') :
    Reaches L 0 (Halting L (sink.written ++ Fragment.trapMessage.toUTF8)) m' := by
  obtain ⟨t, hp, hb⟩ := hL.trap
  obtain ⟨s, hs, hlo, hhi⟩ := h.stack
  obtain rfl : m'.pc = t := Option.some.inj (h.pc.symm.trans hp.1)
  refine (divisionTrap_runs hp hb hs hlo hhi).imp fun m'' ⟨hstop, hbalanced, ho⟩ => ?_
  refine ⟨hstop, hbalanced, fun hc => ?_⟩
  rw [ho, h.output, hm.output hc]

theorem Proceeds.after {r : Run} {j : Nat} {m' : Machine} (ht : Takes L j m m')
    (h : Proceeds L r m') : Proceeds L r m := by
  cases h with
  | trap hi hm => exact .trap hi (.after ht hm)
  | finish hi h hm => exact .finish hi h (.after ht hm)
  | perform hi h hm => exact .perform hi h (.after ht hm)
  | enter hi h hw hm => exact .enter hi h hw (.after ht hm)

section

variable (hL : L.Loaded) {store : Store} {sink : Sink} (hm : Represents L store sink m)

include hL hm

/-- The machine does the next statement, unless that meets a division without an integer for its
answer. -/
theorem proceeds_of_runs {s : Stmt}
    (hexact : ¬ s.Inexact store → ∃ r', Run.step ⟨s :: work, store, sink⟩ = .going r' ∧
      Reaches L 1 (Simulates L r') (m.goTo a))
    (hinexact : s.Inexact store → Reaches L 1 (L.Trapped m) (m.goTo a)) :
    Proceeds L ⟨s :: work, store, sink⟩ (m.goTo a) := by
  by_cases hi : s.Inexact store
  · refine .trap (Run.inexact_cons.mpr hi) ?_
    exact ((hinexact hi).trans fun m' ht => ht.halts hL hm).uncounted
  · obtain ⟨r', hstep, hreach⟩ := hexact hi
    exact .perform (fun h => hi (Run.inexact_cons.mp h)) hstep hreach

theorem proceeds_ite {condition : Expr} {body : Block} {other : Option Block}
    (h : L.StmtAt n a (.ite condition body other) b) (rest : Follows L b work) :
    Proceeds L ⟨.ite condition body other :: work, store, sink⟩ (m.goTo a) := by
  obtain ⟨c, d, k, hvalue, hbranch, hbody, hjump, hother, hblock, hend⟩ := h.ite
  obtain ⟨hexact, hinexact⟩ := branch_runs hL hm hvalue hbranch hother
  refine proceeds_of_runs hL hm (fun hi => ?_) hinexact
  obtain ⟨q, hq, hreach⟩ := hexact hi
  refine ⟨_, Run.step_ite hq, hreach.imp fun m' ⟨hpc, hm'⟩ => ⟨?_, hm'⟩⟩
  rw [hpc]
  cases q with
  | true => exact .append hbody (.jump hjump hend rest)
  | false => exact .append hblock rest

theorem proceeds_while {condition : Expr} {body : Block}
    (h : L.StmtAt n a (.while condition body) b) (rest : Follows L b work) :
    Proceeds L ⟨.while condition body :: work, store, sink⟩ (m.goTo a) := by
  obtain ⟨c, d, hvalue, hbranch, hbody, hjump, hstart, hend⟩ := h.while
  obtain ⟨hexact, hinexact⟩ := branch_runs hL hm hvalue hbranch hend
  refine proceeds_of_runs hL hm (fun hi => ?_) hinexact
  obtain ⟨q, hq, hreach⟩ := hexact hi
  refine ⟨_, Run.step_while hq, hreach.imp fun m' ⟨hpc, hm'⟩ => ⟨?_, hm'⟩⟩
  rw [hpc]
  cases q with
  | true => exact .append hbody (.jump hjump hstart (.stmt h rest))
  | false => exact rest

theorem proceeds_of_begins (hr : L.plan.Regular) (h : Begins L a work) :
    Proceeds L ⟨work, store, sink⟩ (m.goTo a) := by
  match work with
  | [] =>
    refine .finish Run.not_inexact_nil (Run.step_nil hm.reliable) (.here ⟨h, ?_, hm.output⟩)
    exact balanced_of_top hm.pointer
  | .assign name value :: work =>
    obtain ⟨n, b, hs, rest⟩ := h
    obtain ⟨hexact, hinexact⟩ := assign_runs hL hr hm hs
    refine proceeds_of_runs hL hm (fun hi => ?_) hinexact
    obtain ⟨v, hv, hreach⟩ := hexact hi
    exact ⟨_, Run.step_assign hv, hreach.imp fun m' ⟨hpc, hm'⟩ => ⟨hpc ▸ rest, hm'⟩⟩
  | .print value :: work =>
    obtain ⟨n, b, hs, rest⟩ := h
    obtain ⟨hexact, hinexact⟩ := print_runs hL hm hs
    refine proceeds_of_runs hL hm (fun hi => ?_) hinexact
    obtain ⟨v, hv, hreach⟩ := hexact hi
    exact ⟨_, Run.step_print hv hm.reliable,
      hreach.imp fun m' ⟨hpc, hm'⟩ => ⟨hpc ▸ rest, hm'⟩⟩
  | .ite condition body other :: work =>
    obtain ⟨n, b, hs, rest⟩ := h
    exact proceeds_ite hL hm hs rest
  | .while condition body :: work =>
    obtain ⟨n, b, hs, rest⟩ := h
    exact proceeds_while hL hm hs rest
  | .block body :: work =>
    obtain ⟨n, b, hs, rest⟩ := h
    exact .enter (fun h => Run.inexact_cons.mp h) Run.step_block Run.weight_lt_of_block
      (.here ⟨.append hs.block rest, hm.goTo a⟩)

end

/-- **A machine that follows a run goes on following it**, or ends as it does, or reports a division. -/
theorem Simulates.proceeds (hL : L.Loaded) (hr : L.plan.Regular) {r : Run}
    (h : Simulates L r m) : Proceeds L r m := by
  obtain ⟨j, m', -, ht, hbegins, hm⟩ := h.follows.settle h.represents
  exact .after ht (proceeds_of_begins hL hm hr hbegins)

end Assembly

end TinyScript
