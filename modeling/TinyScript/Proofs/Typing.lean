import TinyScript.Proofs.Compile.Cases
import TinyScript.Proofs.Plan.Regular
import TinyScript.Proofs.Run.Steps
import TinyScript.Proofs.Value.Operands

/-!
# What compiles is well typed

A program that can be compiled needs no types when it is run: its text variables hold texts and all
its other variables hold numbers, at every point of every run, so no operator, condition or rounding
ever meets a value that it is not defined for.

* `Plan.Fits`                    a store whose values are of the kinds that a plan foresees
* `Plan.eval_of_valueCode`       an expression with code has a number as its value
* `Plan.WellTyped`               a run with such a store, whose remaining statements all have code
* `Plan.WellTyped.step`          one step of such a run does not fail and leaves it so
* `compiled_run_never_fails`     so no run of a program with a listing ever fails
-/

namespace TinyScript

/-! ## Expressions -/

theorem Expr.eval_of_literal? {e : Expr} {text : String} (store : Store)
    (h : e.literal? = some text) : e.eval store = .ok (.text text) := by
  induction e with
  | group e ih =>
    rw [Expr.eval]
    exact ih h
  | text s =>
    obtain rfl : s = text := Option.some.inj h
    rfl
  | _ => cases h

theorem Expr.eval_of_ungrouped_var {e : Expr} {name : String} (store : Store)
    (h : e.ungrouped = .var name) : e.eval store = .ok (store.read name) := by
  induction e with
  | group e ih =>
    rw [Expr.eval]
    exact ih h
  | var x =>
    obtain rfl : x = name := Expr.var.inj h
    rfl
  | _ => cases h

namespace Plan

variable {plan : Plan}

/-- text variables hold texts and all others numbers, if anything -/
def Fits (plan : Plan) (store : Store) : Prop :=
  ∀ name v, store.find? name = some v → (v.kind = .string ↔ plan.isTextual name = true)

theorem fits_empty (plan : Plan) : plan.Fits .empty := by
  intro name v h
  cases h

theorem Fits.set {store : Store} (h : plan.Fits store) {name : String} {v : Value}
    (hv : v.kind = .string ↔ plan.isTextual name = true) : plan.Fits (store.set name v) :=
  Store.forall_set h hv

theorem Fits.isNumber_read {store : Store} (h : plan.Fits store) {name : String}
    (hn : plan.isTextual name = false) : (store.read name).IsNumber := by
  refine Store.forall_read (fun v hv hk => ?_) (Value.isNumber_int 0)
  rw [(h name v hv).mp hk] at hn
  cases hn

theorem eval_of_valueCode {store : Store} (h : plan.Fits store) {e : Expr}
    {code : List Assembly.Line} (hc : plan.valueCode e = .ok code) : e.HasNumber store := by
  induction e generalizing code with
  | int n => exact ⟨_, rfl, Value.isNumber_int n⟩
  | float x => cases hc
  | text s => cases hc
  | var name =>
    obtain ⟨ht, -, -⟩ := valueCode_var_ok hc
    exact ⟨_, rfl, h.isNumber_read ht⟩
  | group e ih => exact ih hc
  | binary op left right ihl ihr =>
    obtain ⟨first, second, hfirst, hsecond, -⟩ := valueCode_binary_ok hc
    exact .binary op (ihl hfirst) (ihr hsecond)
  | not e ih =>
    obtain ⟨first, hfirst, -⟩ := valueCode_not_ok hc
    exact .not (ih hfirst)
  | round e => cases hc

theorem holds_of_valueCode {store : Store} (h : plan.Fits store) {e : Expr}
    {code : List Assembly.Line} (hc : plan.valueCode e = .ok code) : ∃ b, e.holds store = .ok b :=
  (eval_of_valueCode h hc).holds

end Plan

/-! ## Runs -/

namespace Plan

variable {plan : Plan}

/-- the store fits the plan, and there is code for all that is still to be done -/
structure WellTyped (plan : Plan) (r : Run) : Prop where
  fits : plan.Fits r.store
  accepts : ∀ s ∈ r.work, plan.Accepts s
  reliable : r.sink.Reliable

/-- a run that goes on is well typed, and one that has ended has not failed -/
def WellTypedProgress (plan : Plan) : Progress → Prop
  | .going r => plan.WellTyped r
  | .ended o => o.failure = none ∧ plan.Fits o.store

namespace WellTyped

variable {store : Store} {sink : Sink} {work : List Stmt}

theorem append {body : Block} (hf : plan.Fits store) (hs : sink.Reliable)
    (hb : ∀ s ∈ body, plan.Accepts s) (hw : ∀ s ∈ work, plan.Accepts s) :
    plan.WellTyped ⟨body ++ work, store, sink⟩ := by
  refine ⟨hf, fun s hm => ?_, hs⟩
  rcases List.mem_append.mp hm with hm | hm
  · exact hb s hm
  · exact hw s hm

theorem eval_assigned (hr : plan.Regular) {name : String} {value : Expr} (hf : plan.Fits store)
    {code : List Assembly.Line} (hc : plan.assignCode name value = .ok code) :
    ∃ v, value.eval store = .ok v ∧ (v.kind = .string ↔ plan.isTextual name = true) := by
  obtain ⟨-, ⟨text, e, hlit, he, -⟩ | ⟨-, ht, first, hfirst, -⟩⟩ := assignCode_ok hc
  · have hx := hr.textual_of_entryFor? name text e he
    exact ⟨_, Expr.eval_of_literal? store hlit, by simp [Value.kind, hx]⟩
  · obtain ⟨v, hv, nv⟩ := eval_of_valueCode hf hfirst
    exact ⟨v, hv, by rw [ht]; simpa [Value.IsNumber] using nv⟩

theorem eval_printed {value : Expr} (hf : plan.Fits store) {n : Nat} {code : List Assembly.Line}
    (hc : plan.printCode n value = .ok code) : ∃ v, value.eval store = .ok v := by
  obtain ⟨text, hv, -⟩ | ⟨name, -, -, ht, -⟩ | ⟨-, -, first, hfirst, -⟩ := printCode_ok hc
  · exact ⟨_, Expr.eval_of_literal? store hv⟩
  · exact ⟨_, Expr.eval_of_ungrouped_var store (textVariable?_eq_some ht).1⟩
  · obtain ⟨v, hv, -⟩ := eval_of_valueCode hf hfirst
    exact ⟨v, hv⟩

theorem step_ite {condition : Expr} {body : Block} {other : Option Block}
    {test : List Assembly.Line} (ht : plan.valueCode condition = .ok test)
    (hb : ∀ s ∈ body, plan.Accepts s) (ho : ∀ s ∈ other.getD [], plan.Accepts s)
    (h : plan.WellTyped ⟨.ite condition body other :: work, store, sink⟩) :
    plan.WellTypedProgress (Run.step ⟨.ite condition body other :: work, store, sink⟩) := by
  have hw := fun s hs => h.accepts s (List.mem_cons_of_mem _ hs)
  obtain ⟨b, hc⟩ := holds_of_valueCode h.fits ht
  rw [Run.step_ite hc]
  cases b with
  | true => exact append h.fits h.reliable hb hw
  | false => exact append h.fits h.reliable ho hw

theorem step (hr : plan.Regular) {r : Run} (h : plan.WellTyped r) :
    plan.WellTypedProgress r.step := by
  obtain ⟨work, store, sink⟩ := r
  match work with
  | [] =>
    rw [Run.step_nil h.reliable]
    exact ⟨rfl, h.fits⟩
  | .assign name value :: work =>
    have hw := fun s hs => h.accepts s (List.mem_cons_of_mem _ hs)
    obtain ⟨n, code, hc⟩ := h.accepts _ List.mem_cons_self
    obtain ⟨v, hv, hk⟩ := eval_assigned hr h.fits hc
    rw [Run.step_assign hv]
    exact ⟨h.fits.set hk, hw, h.reliable⟩
  | .print value :: work =>
    have hw := fun s hs => h.accepts s (List.mem_cons_of_mem _ hs)
    obtain ⟨n, code, hc⟩ := h.accepts _ List.mem_cons_self
    obtain ⟨first, hfirst, -⟩ := stmtCode_print_ok hc
    obtain ⟨v, hv⟩ := eval_printed h.fits hfirst
    rw [Run.step_print hv h.reliable]
    exact ⟨h.fits, hw, h.reliable.add _⟩
  | .ite condition body none :: work =>
    obtain ⟨n, code, hc⟩ := h.accepts _ List.mem_cons_self
    obtain ⟨test, first, htest, hfirst, -⟩ := stmtCode_ite_none_ok hc
    exact step_ite htest (accepts_of_blockCode hfirst) (fun s hs => by cases hs) h
  | .ite condition body (some other) :: work =>
    obtain ⟨n, code, hc⟩ := h.accepts _ List.mem_cons_self
    obtain ⟨test, first, second, htest, hfirst, hsecond, -⟩ := stmtCode_ite_some_ok hc
    exact step_ite htest (accepts_of_blockCode hfirst) (accepts_of_blockCode hsecond) h
  | .while condition body :: work =>
    have hw := fun s hs => h.accepts s (List.mem_cons_of_mem _ hs)
    obtain ⟨n, code, hc⟩ := h.accepts _ List.mem_cons_self
    obtain ⟨test, loop, htest, hloop, -⟩ := stmtCode_while_ok hc
    obtain ⟨b, hb⟩ := holds_of_valueCode h.fits htest
    rw [Run.step_while hb]
    cases b with
    | true => exact append h.fits h.reliable (accepts_of_blockCode hloop) h.accepts
    | false => exact ⟨h.fits, hw, h.reliable⟩
  | .block body :: work =>
    obtain ⟨n, code, hc⟩ := h.accepts _ List.mem_cons_self
    rw [Run.step_block]
    exact append h.fits h.reliable (accepts_of_blockCode (n := n) hc)
      fun s hs => h.accepts s (List.mem_cons_of_mem _ hs)

theorem advance (hr : plan.Regular) (n : Nat) {r : Run} (h : plan.WellTyped r) :
    plan.WellTypedProgress (r.advance n) :=
  Run.advance_preserves (fun _ => step hr) n h

end WellTyped

theorem wellTyped_start {p : Program} {lines : List Assembly.Line}
    (h : p.compile = .ok lines) {sink : Sink} (hs : sink.Reliable) :
    p.plan.WellTyped (p.start .empty sink) := by
  obtain ⟨statements, hb, -⟩ := listing_ok h
  exact ⟨fits_empty _, accepts_of_blockCode hb, hs⟩

end Plan

/-! ## The values of variables -/

/-- A variable to which the program somewhere assigns a text literal holds a text, and every other
variable an integer or a double, unless it is not yet set. -/
def Program.StoreTyped (p : Program) (store : Store) : Prop :=
  ∀ name,
    (p.AssignsText name → store.find? name = none ∨ ∃ s, store.find? name = some (.text s)) ∧
    (¬ p.AssignsText name → store.find? name = none ∨
      (∃ n, store.find? name = some (.int n)) ∨ ∃ x, store.find? name = some (.float x))

theorem Plan.Fits.storeTyped {p : Program} {store : Store} (h : p.plan.Fits store) :
    p.StoreTyped store := by
  intro name
  have hk := h name
  rw [isTextual_plan_iff] at hk
  cases hv : store.find? name with
  | none => exact ⟨fun _ => .inl rfl, fun _ => .inl rfl⟩
  | some v =>
    have hiff := hk v hv
    cases v with
    | text s => exact ⟨fun _ => .inr ⟨s, rfl⟩, fun hn => absurd (hiff.mp rfl) hn⟩
    | int n => exact ⟨fun ht => absurd (hiff.mpr ht) (by simp [Value.kind]), fun _ => .inr (.inl ⟨n, rfl⟩)⟩
    | float x => exact ⟨fun ht => absurd (hiff.mpr ht) (by simp [Value.kind]), fun _ => .inr (.inr ⟨x, rfl⟩)⟩

/-- **What compiles never fails.**  A run of a program that has a listing is at every point either
still going on or over without a failure, and its variables hold values of the foreseen kinds. -/
theorem compiled_run_never_fails {p : Program} {lines : List Assembly.Line}
    (h : p.compile = .ok lines) {sink : Sink} (hs : sink.Reliable) (n : Nat) :
    match (p.start .empty sink).advance n with
    | .going r => p.StoreTyped r.store
    | .ended o => o.failure = none ∧ p.StoreTyped o.store := by
  have hw := (Plan.wellTyped_start h hs).advance (Plan.regular_plan p) n
  cases ha : (p.start .empty sink).advance n with
  | going r => rw [ha] at hw; exact hw.fits.storeTyped
  | ended o => rw [ha] at hw; exact ⟨hw.1, hw.2.storeTyped⟩

/-- A loop that prints a text variable before it is assigned for the first time, and then a quotient
that is infinite. -/
def latecomer : Program :=
  [.assign "i" (.int 2),
    .while (.var "i")
      [.print (.group (.var "s")), .assign "s" (.group (.text "x")),
        .assign "i" (.binary .sub (.var "i") (.int 1))],
    .print (.binary .div (.int 1) (.int 0))]

theorem compiled_run_never_fails_latecomer :
    ∃ lines, latecomer.compile = .ok lines ∧
      match (latecomer.start .empty {}).advance 12 with
      | .going r => latecomer.StoreTyped r.store
      | .ended o => o.failure = none ∧ latecomer.StoreTyped o.store :=
  have h : latecomer.compile = .ok _ := rfl
  ⟨_, h, compiled_run_never_fails h Sink.reliable_empty 12⟩

end TinyScript
