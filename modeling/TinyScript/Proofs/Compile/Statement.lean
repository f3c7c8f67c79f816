import Mathlib.Data.List.TakeWhile
import TinyScript.Proofs.Compile.Boundaries
import TinyScript.Proofs.Compile.Represents
import TinyScript.Proofs.Decimal.Digits
import TinyScript.Proofs.Machine.PrintInt
import TinyScript.Proofs.Plan.Regular
import TinyScript.Proofs.Typing

/-!
# The code of statements

What the code of an assignment, a print and a condition does to a machine that stands between two
statements.  Each goes to the trap exactly if its expression meets a division that has no integer for its
answer, and otherwise does what the run does.

* `value_runs`       the code of an expression
* `assign_runs`      an assignment
* `print_runs`       a print
* `branch_runs`      a condition with the branch behind it
-/

namespace TinyScript.Assembly

open Machine Layout

/-! ### Expressions -/

theorem not_inexact_of_literal? {e : Expr} {text : String} (store : Store)
    (h : e.literal? = some text) : ¬ e.Inexact store := by
  induction e with
  | group e ih => exact ih h
  | text s => exact id
  | _ => cases h

theorem not_inexact_of_ungrouped_var {e : Expr} {name : String} (store : Store)
    (h : e.ungrouped = .var name) : ¬ e.Inexact store := by
  induction e with
  | group e ih => exact ih h
  | var x => exact id
  | _ => cases h

theorem printed_zero : (Value.int 0).printed.toUTF8 = [48].toByteArray := by decide +kernel

theorem newline_runs {L : Layout} {store : Store} {sink : Sink} {a : Nat} {m : Machine}
    (hm : Represents L store sink m) (hp : Placed L.image a Plan.newline) :
    Reaches L 1 (fun m' => m'.pc = a + 2 ∧ Represents L store (sink.add [10].toByteArray) m')
      (m.goTo a) := by
  refine Reaches.li (hp.code (k := 0) rfl) (balanced_of_top hm.pointer) ?_
  refine Reaches.ewrite (hp.code (k := 1) rfl) (balanced_of_top (by simp [hm.pointer])) ?_
  have hbyte : lowByte (Int32.ofNat (10 : UInt8).toNat) = 10 := lowByte_toNat 10
  have hk : Kept L.buffer L.top m (m.set .argument (Int32.ofNat (10 : UInt8).toNat)) :=
    .of_memory (by simp) (by simp) (by simp)
  refine .here ⟨rfl, (hm.printed (Nat.le_refl _) (hk.trans (.of_memory ?_ ?_ ?_))
    fun _ => ?_).goTo _⟩
  · exact get_emit ..
  · exact get_emit ..
  · exact memory_emit ..
  · rw [output_emit, get_set (by simp), if_pos rfl, hbyte, output_set]

section

variable {L : Layout} (hL : L.Loaded) {store : Store} {sink : Sink} {a b n : Nat} {m : Machine}

include hL

theorem value_runs (hm : Represents L store sink m) {e : Expr} (h : L.ValueAt a e b) :
    (¬ e.Inexact store → ∃ w, e.eval store = .ok (.int w) ∧
        Reaches L 1 (fun m' => m'.pc = b ∧ m'.get .result = w ∧ Represents L store sink m')
          (m.goTo a)) ∧
      (e.Inexact store → Reaches L 1 (L.Trapped m) (m.goTo a)) := by
  obtain ⟨code, hc, hp, rfl⟩ := h.code
  have hdepth := h.depth
  have htop : L.top = L.stack + L.stackWords := rfl
  have hrun := valueCode_runs hL hc hp h.quiet hm.ready (by omega)
  refine ⟨fun he => ?_, hrun.2⟩
  obtain ⟨w, hw, hreach⟩ := hrun.1 he
  refine ⟨w, hw, hreach.imp fun m' hm' => ⟨hm'.pc, hm'.result, ?_⟩⟩
  exact hm.kept (Nat.le_of_lt buffer_lt_stack) hm'.kept hm'.output

/-! ### Assignments -/

theorem sw_slot {name : String} (hn : name ∈ L.plan.names) {v : Value} {w : Int32}
    (henc : L.Encodes name (some v) w) (hm : Represents L store sink m) {base src : Reg}
    (hi : L.image.code[a]? = some (some (.sw base 0 src)))
    (hbase : m.get base = Int32.ofNat (L.slot name)) (hsrc : m.get src = w) :
    Reaches L 1 (fun m' => m'.pc = a + 1 ∧ Represents L (store.set name v) sink m') (m.goTo a) := by
  have hslot := slot_lt_stack hn
  have htop := L.stack_le_top
  have hsize := hm.intact.size
  refine Reaches.sw hi (balanced_of_top hm.pointer)
    (hm.intact.addressAt? hL hbase (by omega)) ⟨Nat.le_add_right _ _, by omega⟩ (.here ⟨rfl, ?_⟩)
  refine (hm.assigned hn henc (Kept.store m _ _) ?_ rfl).goTo _
  rw [getElem?_store (by omega), if_pos rfl, hsrc]

theorem storeAddress_runs (hr : L.plan.Regular) {name : String} (hn : name ∈ L.plan.names)
    {text : String} {e : PoolEntry} (he : L.plan.entryFor? name text = some e)
    (hm : Represents L store sink m)
    (hp : Placed L.image a (Fragment.storeAddress (Plan.slotLabel name) e.label)) :
    Reaches L 1 (fun m' => m'.pc = a + 3 ∧ Represents L (store.set name (.text text)) sink m')
      (m.goTo a) := by
  obtain ⟨t, ht, haddress⟩ := hL.textAt (Pool.mem_of_entry? he)
  have htext := hr.textual_of_entryFor? name text e he
  refine Reaches.la (hp.code (k := 0) rfl) (balanced_of_top hm.pointer) haddress ?_
  refine Reaches.la (hp.code (k := 1) rfl)
    (balanced_of_top (by simp [hm.pointer])) (hL.slot name hn) ?_
  refine (sw_slot hL hn (.text text e t htext he ht)
    ((hm.set (by simp) (by decide) _).set (by simp) (by decide) _) (hp.code (k := 2) rfl)
    (by simp) (by simp)).uncounted

theorem storeVar_runs {name : String} (hn : name ∈ L.plan.names)
    (ht : L.plan.isTextual name = false) {w : Int32} (hm : Represents L store sink m)
    (hw : m.get .result = w)
    (hp : Placed L.image a (Fragment.storeVar (Plan.slotLabel name) .result)) :
    Reaches L 1 (fun m' => m'.pc = a + 2 ∧ Represents L (store.set name (.int w)) sink m')
      (m.goTo a) := by
  refine Reaches.la (hp.code (k := 0) rfl) (balanced_of_top hm.pointer) (hL.slot name hn) ?_
  exact (sw_slot hL hn (.number w ht) (hm.set (by simp) (by decide) _) (hp.code (k := 1) rfl)
    (by simp) (by simp [hw])).uncounted

/-- **An assignment** puts the value of its expression into the word of its variable. -/
theorem assign_runs (hr : L.plan.Regular) (hm : Represents L store sink m) {name : String}
    {value : Expr} (h : L.StmtAt n a (.assign name value) b) :
    (¬ value.Inexact store → ∃ v, value.eval store = .ok v ∧
        Reaches L 1 (fun m' => m'.pc = b ∧ Represents L (store.set name v) sink m') (m.goTo a)) ∧
      (value.Inexact store → Reaches L 1 (L.Trapped m) (m.goTo a)) := by
  obtain ⟨hn, ⟨text, e, hlit, he, rfl, hp⟩ | ⟨-, ht, c, hvalue, rfl, hp⟩⟩ := h.assign
  · refine ⟨fun _ => ⟨_, Expr.eval_of_literal? store hlit, ?_⟩,
      fun hi => absurd hi (not_inexact_of_literal? store hlit)⟩
    exact storeAddress_runs hL hr hn he hm hp
  · obtain ⟨hexact, hinexact⟩ := value_runs hL hm hvalue
    refine ⟨fun hi => ?_, hinexact⟩
    obtain ⟨w, hw, hreach⟩ := hexact hi
    refine ⟨_, hw, hreach.trans fun m' ⟨hpc, hresult, hm'⟩ => ?_⟩
    rw [machine_at hpc]
    exact (storeVar_runs hL hn ht hm' hresult hp).uncounted

/-! ### Prints -/

theorem printText_runs {name : String} (hn : name ∈ L.plan.names)
    (ht : L.plan.isTextual name = true) (hm : Represents L store sink m) {first last : String}
    (hp : Placed L.image a (Fragment.writeTextVar (Plan.slotLabel name) first last)) :
    Reaches L 1 (fun m' => m'.pc = a + 11 ∧
      Represents L store (sink.add (store.read name).printed.toUTF8) m') (m.goTo a) := by
  have hreader := hm.intact.reader hL hm.pointer
  obtain ⟨w, hw, henc⟩ := hm.words name hn
  unfold Store.read
  generalize store.find? name = v at henc
  cases henc with
  | unset =>
    refine (writeTextVar_unset L.buffer L.top hp (hL.slot name hn) hreader hw).imp
      fun m' ⟨hpc, hk, ho⟩ => ⟨hpc, hm.printed (Nat.le_refl _) hk fun _ => ?_⟩
    rw [ho]
    exact congrArg (m.output ++ ·) printed_zero.symm
  | number _ hnumber =>
    rw [ht] at hnumber
    cases hnumber
  | text text e t _ he ht =>
    refine (writeTextVar_runs L.buffer L.top hp (hL.slot name hn) hreader ht.pos hw
      (ht.holdsText hm.intact)).imp
      fun m' ⟨hpc, hk, ho⟩ => ⟨hpc, hm.printed (Nat.le_refl _) hk fun hc => ?_⟩
    have hwhole : e.bytes.toList.takeWhile (· ≠ 0) = e.bytes.toList := by
      rw [List.takeWhile_eq_self_iff]
      intro byte hbyte
      exact decide_eq_true fun hz => hc name text e he (hz ▸ hbyte)
    rw [ho, hwhole, toByteArray_toList, Pool.bytes_of_entry? he]
    rfl

theorem printNumber_runs {w : Int32} (hm : Represents L store sink m) (hw : m.get .result = w)
    (hp : Placed L.image a (Fragment.callPrintInt .result ++ Plan.newline)) :
    Reaches L 1 (fun m' => m'.pc = a + 2 ∧
      Represents L store (sink.add (Value.int w).printed.toUTF8) m') (m.goTo a) := by
  obtain ⟨x, hx⟩ := hL.printInt
  have hreturn := hL.lt_addressLimit (hp.code (k := 2) rfl)
  refine Reaches.addi (hp.code (k := 0) rfl) (balanced_of_top hm.pointer) ?_
  refine Reaches.jal (hp.code (k := 1) rfl) (balanced_of_top (by simp [hm.pointer])) hx.1 ?_
  generalize hc : Machine.set _ Reg.link _ = c
  have hcm : Represents L store sink c := by
    rw [← hc]
    exact (hm.set (by simp) (by decide) _).set (by simp) (by decide) _
  have hco : c.output = m.output := by
    rw [← hc]
    simp
  have hlink : (c.get .link).toInt.toNat = a + 2 := by
    rw [← hc, get_set (by simp), if_pos rfl, toInt_address hreturn]
    rfl
  have hargument : c.get .argument = w := by
    rw [← hc]
    simp [hw]
  have hscratch := hcm.intact.scratch hL hcm.pointer
  refine ((printInt_runs hx hscratch).imp fun m' ⟨⟨hpc, hk, ho⟩, _⟩ => ?_).uncounted
  refine ⟨hpc.trans hlink, hcm.printed (Nat.le_refl _) hk fun _ => ?_⟩
  rw [ho, hargument]
  exact congrArg (c.output ++ ·) (Decimal.integer_toUTF8 w.toInt).symm

/-- **A print** writes the value of its expression and a newline. -/
theorem print_runs (hm : Represents L store sink m) {value : Expr}
    (h : L.StmtAt n a (.print value) b) :
    (¬ value.Inexact store → ∃ v, value.eval store = .ok v ∧
        Reaches L 1 (fun m' => m'.pc = b ∧ Represents L store (sink.add (Run.printedLine v)) m')
          (m.goTo a)) ∧
      (value.Inexact store → Reaches L 1 (L.Trapped m) (m.goTo a)) := by
  obtain ⟨c, rfl, hnewline, hvalue⟩ := h.print
  -- the newline behind what is printed
  have hline {v : Value} {k : Nat} (hreach : Reaches L k (fun m' => m'.pc = c ∧
      Represents L store (sink.add v.printed.toUTF8) m') (m.goTo a)) :
      Reaches L 1 (fun m' => m'.pc = c + 2 ∧
        Represents L store (sink.add (Run.printedLine v)) m') (m.goTo a) := by
    obtain ⟨j, m', -, ht, hpc, hm'⟩ := hreach
    rw [machine_at hpc] at ht
    obtain ⟨i, m'', hi, ht', hpc', hm''⟩ := newline_runs hm' hnewline
    refine ⟨j + i, m'', by omega, ht.trans ht', hpc', ?_⟩
    rw [Sink.add_add] at hm''
    exact hm''
  rcases hvalue with ⟨text, hlit, rfl, hp⟩ | ⟨name, hn, ht, hvar, rfl, hp⟩ | ⟨d, hd, rfl, hp⟩
  · refine ⟨fun _ => ⟨_, Expr.eval_of_literal? store hlit, ?_⟩,
      fun hi => absurd hi (not_inexact_of_literal? store hlit)⟩
    refine hline ((writeBytes_runs L.buffer L.top hp fun c _ h =>
      balanced_of_top (h.trans hm.pointer)).imp
        fun m' ⟨hpc, hk, ho⟩ => ⟨hpc, hm.printed (Nat.le_refl _) hk fun _ => ?_⟩)
    rw [ho, toByteArray_toList]
    rfl
  · refine ⟨fun _ => ⟨_, Expr.eval_of_ungrouped_var store hvar, ?_⟩,
      fun hi => absurd hi (not_inexact_of_ungrouped_var store hvar)⟩
    exact hline (printText_runs hL hn ht hm hp)
  · obtain ⟨hexact, hinexact⟩ := value_runs hL hm hd
    refine ⟨fun hi => ?_, hinexact⟩
    obtain ⟨w, hw, hreach⟩ := hexact hi
    have hcall : Placed L.image d (Fragment.callPrintInt .result ++ Plan.newline) :=
      placed_append.mpr ⟨hp, hnewline⟩
    refine ⟨_, hw, hline (hreach.trans fun m' ⟨hpc, hresult, hm'⟩ => ?_)⟩
    rw [machine_at hpc]
    exact (printNumber_runs hL hm' hresult hcall).uncounted

/-! ### Conditions -/

/-- **A condition** and the branch behind it, which is taken if the condition does not hold. -/
theorem branch_runs (hm : Represents L store sink m) {condition : Expr} {label : String} {y : Nat}
    (h : L.ValueAt a condition b)
    (hi : L.image.code[b]? = some (some (.branch .eq .result .zero label)))
    (hy : L.image.address? label = some y) :
    (¬ condition.Inexact store → ∃ q : Bool, condition.holds store = .ok q ∧
        Reaches L 1 (fun m' => m'.pc = (if q then b + 1 else y) ∧ Represents L store sink m')
          (m.goTo a)) ∧
      (condition.Inexact store → Reaches L 1 (L.Trapped m) (m.goTo a)) := by
  obtain ⟨hexact, hinexact⟩ := value_runs hL hm h
  refine ⟨fun he => ?_, hinexact⟩
  obtain ⟨w, hw, hreach⟩ := hexact he
  refine ⟨w != 0, ?_, hreach.trans fun m' ⟨hpc, hresult, hm'⟩ => ?_⟩
  · rw [Expr.holds, hw]
    exact Value.condition_int w
  have hz := hm'.intact.zero
  rw [machine_at hpc]
  by_cases hw0 : w = 0
  · refine Reaches.branch_taken hi (balanced_of_top hm'.pointer) ?_ hy (.here ⟨?_, hm'.goTo _⟩)
    · rw [hresult, hz, hw0]
      rfl
    · rw [if_neg (by simp [hw0])]
      rfl
  · refine Reaches.branch_not_taken hi (balanced_of_top hm'.pointer) ?_ (.here ⟨?_, hm'.goTo _⟩)
    · rw [hresult, hz]
      exact beq_eq_false_iff_ne.mpr hw0
    · rw [if_pos (bne_iff_ne.mpr hw0)]
      rfl

end

end TinyScript.Assembly
