import TinyScript.Proofs.Run.Steps

/-!
# Runs into a stream that fills up

Two runs of one program, into a stream without a bound and into one with room for `n` bytes, take the
same steps as long as what was written fits.  The first line that does not fit ends the bounded run.

* `Run.printed?`        the value that the next step prints
* `Run.step_withSink`   a step that prints nothing does not look at the stream
* `Run.Writes`          a byte that a run writes at a place, sooner or later
* `Run.advance_within`  the two runs after some steps
* `bounded_stream_cuts_run`  how a bounded run ends
-/

namespace TinyScript

def Sink.bytes (sink : Sink) : List UInt8 := sink.written.data.toList

/-- the stream with room for `n` bytes in place of its own bound -/
def Sink.within (n : Nat) (sink : Sink) : Sink := { sink with capacity := some n }

def Outcome.within (n : Nat) (o : Outcome) : Outcome := { o with sink := o.sink.within n }

def Run.within (n : Nat) (r : Run) : Run := { r with sink := r.sink.within n }

namespace Progress

def sink : Progress → Sink
  | .going r => r.sink
  | .ended o => o.sink

def withSink (sink : Sink) : Progress → Progress
  | .going r => .going { r with sink }
  | .ended o => .ended { o with sink }

def within (n : Nat) : Progress → Progress
  | .going r => .going (r.within n)
  | .ended o => .ended (o.within n)

theorem withSink_within (n : Nat) (p : Progress) : p.withSink (p.sink.within n) = p.within n := by
  cases p <;> rfl

end Progress

namespace Sink

theorem bytes_add (sink : Sink) (line : ByteArray) :
    (sink.add line).bytes = sink.bytes ++ line.data.toList := by
  simp [bytes, add]

theorem size_add (sink : Sink) (line : ByteArray) :
    (sink.add line).written.size = sink.written.size + line.size := ByteArray.size_append

/-- the stream when it has filled up -/
def full (n : Nat) (sink : Sink) : Sink :=
  { sink with written := sink.written.extract 0 n, capacity := some n }

theorem bytes_full (n : Nat) (sink : Sink) : (sink.full n).bytes = sink.bytes.take n := by
  simp [bytes, full, ByteArray.data_extract]

variable {sink : Sink} {n : Nat}

theorem write_within_of_fits {line : ByteArray} (h : (sink.add line).written.size ≤ n) :
    (sink.within n).write line = ((sink.add line).within n, true) := by
  rw [size_add] at h
  have hfits : (sink.within n).fitting line = line := by
    show line.extract 0 (min line.size (n - sink.written.size)) = line
    rw [Nat.min_eq_left (by omega), ByteArray.extract_zero_size]
  rw [write, hfits, beq_self_eq_true]
  rfl

/-- What does not fit is cut off. -/
theorem write_within_of_exceeds {line : ByteArray} (hn : sink.written.size ≤ n)
    (h : n < (sink.add line).written.size) :
    (sink.within n).write line = ((sink.add line).full n, false) := by
  rw [size_add] at h
  have hfits : (sink.within n).fitting line = line.extract 0 (n - sink.written.size) := by
    show line.extract 0 (min line.size (n - sink.written.size)) = _
    rw [Nat.min_eq_right (by omega)]
  have hsize : ((line.extract 0 (n - sink.written.size)).size == line.size) = false := by
    rw [ByteArray.size_extract, Nat.min_eq_left (by omega)]
    exact beq_false_of_ne (by omega)
  have hall : sink.written.extract 0 n = sink.written := by
    rw [← Nat.max_eq_left hn, ByteArray.extract_zero_max_size]
  have hcut : sink.written ++ line.extract 0 (n - sink.written.size) =
      (sink.written ++ line).extract 0 n := by
    rw [ByteArray.extract_append, hall, Nat.zero_sub]
  rw [write, hfits, hsize]
  show (Sink.mk (sink.written ++ line.extract 0 (n - sink.written.size)) (some n) sink.flushFails,
    false) = _
  rw [hcut]
  rfl

end Sink

namespace Run

/-! ### Single steps -/

/-- the value that the next step prints, and the statements that are left after it -/
def printed? (r : Run) : Option (Value × List Stmt) :=
  match r.work with
  | .print value :: work =>
    match value.eval r.store with
    | .ok v => some (v, work)
    | .error _ => none
  | _ => none

theorem printed?_eq_some {r : Run} {v : Value} {work : List Stmt} (h : r.printed? = some (v, work)) :
    ∃ value, r.work = .print value :: work ∧ value.eval r.store = .ok v := by
  obtain ⟨todo, store, sink⟩ := r
  unfold printed? at h
  dsimp only at h ⊢
  split at h
  · next value rest =>
    split at h
    · next x hx =>
      cases h
      exact ⟨value, rfl, hx⟩
    · cases h
  · cases h

theorem step_of_printed? {r : Run} {v : Value} {work : List Stmt}
    (h : r.printed? = some (v, work)) : r.step = r.print work v := by
  obtain ⟨value, hwork, hv⟩ := printed?_eq_some h
  obtain ⟨todo, store, sink⟩ := r
  obtain rfl : todo = _ := hwork
  simp only [step, hv]

/-- A step that prints nothing leaves the stream as it is, and does not depend on it. -/
theorem step_withSink {r : Run} (h : r.printed? = none) (sink : Sink)
    (hs : sink.flushFails = r.sink.flushFails) :
    r.step.sink = r.sink ∧ Run.step { r with sink } = r.step.withSink sink := by
  obtain ⟨todo, store, out⟩ := r
  cases todo with
  | nil => exact ⟨rfl, by simp only [step, finish, Progress.withSink]; rw [hs]⟩
  | cons s work =>
    cases s with
    | assign name value =>
      simp only [step]
      cases value.eval store <;> exact ⟨rfl, rfl⟩
    | print value =>
      cases hv : value.eval store with
      | ok v => simp only [printed?, hv] at h; cases h
      | error failure => simp only [step, hv]; exact ⟨rfl, rfl⟩
    | ite condition body other =>
      simp only [step]
      cases condition.holds store with
      | ok b => cases b <;> exact ⟨rfl, rfl⟩
      | error failure => exact ⟨rfl, rfl⟩
    | «while» condition body =>
      simp only [step]
      cases condition.holds store with
      | ok b => cases b <;> exact ⟨rfl, rfl⟩
      | error failure => exact ⟨rfl, rfl⟩
    | block body => exact ⟨rfl, rfl⟩

theorem print_of_written {r : Run} {sink : Sink} {v : Value}
    (h : r.sink.write (printedLine v) = (sink, true)) (work : List Stmt) :
    r.print work v = .going ⟨work, r.store, sink⟩ := by
  simp only [print, h]

theorem print_of_cut {r : Run} {sink : Sink} {v : Value}
    (h : r.sink.write (printedLine v) = (sink, false)) (work : List Stmt) :
    r.print work v = .ended ⟨r.store, sink, some .output⟩ := by
  simp only [print, h]

theorem step_print_of_reliable {r : Run} {v : Value} {work : List Stmt} (hs : r.sink.Reliable)
    (h : r.printed? = some (v, work)) :
    r.step = .going ⟨work, r.store, r.sink.add (printedLine v)⟩ := by
  rw [step_of_printed? h]
  exact print_of_written (Sink.write_of_unbounded hs.capacity _) work

/-- A step adds to what was written, if it changes it at all. -/
theorem step_sink {r : Run} (hs : r.sink.Reliable) : ∃ line, r.step.sink = r.sink.add line := by
  cases h : r.printed? with
  | none =>
    refine ⟨.empty, ?_⟩
    rw [(step_withSink h r.sink rfl).1, Sink.add, ByteArray.append_empty]
  | some next => exact ⟨printedLine next.1, by rw [step_print_of_reliable hs h]; rfl⟩

/-! ### What a run writes -/

/-- sooner or later the run writes this byte at this place of its output -/
def Writes (r : Run) (i : Nat) (b : UInt8) : Prop := ∃ k, (r.advance k).sink.bytes[i]? = some b

theorem bytes_prefix_advance (k : Nat) {r : Run} (hs : r.sink.Reliable) :
    r.sink.bytes <+: (r.advance k).sink.bytes := by
  induction k generalizing r with
  | zero => exact List.prefix_rfl
  | succ k ih =>
    obtain ⟨line, hline⟩ := step_sink hs
    have hstep : r.sink.bytes <+: r.step.sink.bytes := by
      rw [hline, Sink.bytes_add]
      exact List.prefix_append _ _
    rw [advance_succ]
    cases h : r.step with
    | going r' =>
      rw [h] at hline hstep
      have hs' : r'.sink.Reliable := by
        rw [show r'.sink = r.sink.add line from hline]
        exact hs.add line
      exact hstep.trans (ih hs')
    | ended o =>
      rw [h] at hstep
      exact hstep

theorem bytes_mono {r : Run} (hs : r.sink.Reliable) {j k : Nat} (hjk : j ≤ k) :
    (r.advance j).sink.bytes <+: (r.advance k).sink.bytes := by
  induction j generalizing r k with
  | zero => exact bytes_prefix_advance k hs
  | succ j ih =>
    obtain ⟨k, rfl⟩ : ∃ m, k = m + 1 := ⟨k - 1, by omega⟩
    obtain ⟨line, hline⟩ := step_sink hs
    rw [advance_succ, advance_succ]
    cases h : r.step with
    | going r' =>
      rw [h] at hline
      have hs' : r'.sink.Reliable := by
        rw [show r'.sink = r.sink.add line from hline]
        exact hs.add line
      exact ih hs' (by omega)
    | ended o => exact List.prefix_rfl

/-- What was written at some time stays written. -/
theorem writes_iff {r : Run} (hs : r.sink.Reliable) {k i : Nat}
    (hi : i < (r.advance k).sink.bytes.length) {b : UInt8} :
    r.Writes i b ↔ (r.advance k).sink.bytes[i]? = some b := by
  refine ⟨fun ⟨m, hm⟩ => ?_, fun h => ⟨k, h⟩⟩
  rcases Nat.le_total k m with hkm | hmk
  · obtain ⟨rest, hrest⟩ := bytes_mono hs hkm
    rwa [← hrest, List.getElem?_append_left hi] at hm
  · obtain ⟨rest, hrest⟩ := bytes_mono hs hmk
    rw [← hrest, List.getElem?_append_left (List.getElem?_eq_some_iff.mp hm).1, hm]

/-! ### The two runs -/

/-- After `j` steps the run is to print a line that no longer fits, and the bounded run ends there. -/
structure Fills (n : Nat) (r : Run) (j : Nat) (r' : Run) (v : Value) (work : List Stmt) : Prop where
  reached : r.advance j = .going r'
  printed : r'.printed? = some (v, work)
  fits : r'.sink.written.size ≤ n
  exceeds : n < (r'.sink.add (printedLine v)).written.size
  written : r.advance (j + 1) = .going ⟨work, r'.store, r'.sink.add (printedLine v)⟩
  ended : (r.within n).advance (j + 1) =
    .ended ⟨r'.store, (r'.sink.add (printedLine v)).full n, some .output⟩

variable {n : Nat}

/-- One step of both runs. -/
theorem step_within {r : Run} (hs : r.sink.Reliable) (hn : r.sink.written.size ≤ n) :
    r.step.sink.written.size ≤ n ∧ (r.within n).step = r.step.within n ∨
      ∃ v work, Fills n r 0 r v work := by
  cases h : r.printed? with
  | none =>
    obtain ⟨hsink, hstep⟩ := step_withSink h (r.sink.within n) rfl
    refine .inl ⟨hsink ▸ hn, ?_⟩
    rw [← Progress.withSink_within, hsink]
    exact hstep
  | some next =>
    obtain ⟨v, work⟩ := next
    have hfree := step_print_of_reliable hs h
    have hbounded : (r.within n).step = (r.within n).print work v := step_of_printed? h
    by_cases hfits : (r.sink.add (printedLine v)).written.size ≤ n
    · have hgoing := print_of_written (r := r.within n) (Sink.write_within_of_fits hfits) work
      refine .inl ⟨by rw [hfree]; exact hfits, ?_⟩
      rw [hbounded, hfree, hgoing]
      rfl
    · have hexceeds := Nat.lt_of_not_le hfits
      have hended := print_of_cut (r := r.within n) (Sink.write_within_of_exceeds hn hexceeds) work
      exact .inr ⟨v, work, rfl, h, hn, hexceeds, advance_succ_of_going hfree 0,
        advance_succ_of_ended (hbounded.trans hended) 0⟩

/-- The two runs after `k` steps: the same, but for the bound, or the bounded one has ended. -/
theorem advance_within (k : Nat) {r : Run} (hs : r.sink.Reliable) (hn : r.sink.written.size ≤ n) :
    (r.advance k).sink.written.size ≤ n ∧ (r.within n).advance k = (r.advance k).within n ∨
      ∃ j r' v work, Fills n r j r' v work := by
  induction k generalizing r with
  | zero => exact .inl ⟨hn, rfl⟩
  | succ k ih =>
    rcases step_within hs hn with ⟨hsize, hstep⟩ | ⟨v, work, hfills⟩
    · rw [advance_succ, advance_succ, hstep]
      obtain ⟨line, hline⟩ := step_sink hs
      cases h : r.step with
      | ended o =>
        rw [h] at hsize
        exact .inl ⟨hsize, rfl⟩
      | going next =>
        rw [h] at hsize hline hstep
        have hs' : next.sink.Reliable := by
          rw [show next.sink = r.sink.add line from hline]
          exact hs.add line
        refine (ih hs' hsize).imp id fun ⟨j, r', v, work, hfills⟩ => ⟨j + 1, r', v, work, ?_⟩
        exact ⟨(advance_succ_of_going h j).trans hfills.reached, hfills.printed, hfills.fits,
          hfills.exceeds, (advance_succ_of_going h (j + 1)).trans hfills.written,
          (advance_succ_of_going hstep (j + 1)).trans hfills.ended⟩
    · exact .inr ⟨0, r, v, work, hfills⟩

/-- The bytes of the full stream are the first ones that the run writes. -/
theorem Fills.getElem?_full {r r' : Run} {j : Nat} {v : Value} {work : List Stmt}
    (h : Fills n r j r' v work) (hs : r.sink.Reliable) (i : Nat) (b : UInt8) :
    ((r'.sink.add (printedLine v)).full n).bytes[i]? = some b ↔ i < n ∧ r.Writes i b := by
  rw [Sink.bytes_full]
  by_cases hi : i < n
  · have hlength : i < (r.advance (j + 1)).sink.bytes.length := by
      rw [h.written]
      exact Nat.lt_trans hi h.exceeds
    rw [List.getElem?_take_of_lt hi, writes_iff hs hlength, h.written]
    exact ⟨fun hb => ⟨hi, hb⟩, And.right⟩
  · rw [List.getElem?_take_eq_none (Nat.le_of_not_lt hi)]
    exact ⟨fun hb => (nomatch hb), fun hb => absurd hb.1 hi⟩

theorem Fills.writes {r r' : Run} {j : Nat} {v : Value} {work : List Stmt}
    (h : Fills n r j r' v work) : ∃ b, r.Writes n b := by
  have hlt : n < (r.advance (j + 1)).sink.bytes.length := by
    rw [h.written]
    exact h.exceeds
  exact ⟨_, j + 1, List.getElem?_eq_getElem hlt⟩

end Run

/-- **A bounded stream cuts a run cleanly.**  Take a run of a program into a stream that takes
everything, and one from the same variables into a stream with room for `n` bytes.  If the first
writes no byte behind the first `n`, both end alike, and one does not end if the other does not.  If
it does, the second fails when it comes to the line with this byte: it has written the first `n` bytes
that the other one writes, and its variables are those that the other one has before that line. -/
theorem bounded_stream_cuts_run (p : Program) (store : Store) (n : Nat) :
    ((∀ b, ¬ (p.start store {}).Writes n b) →
      (∀ k o, (p.start store {}).advance k = .ended o →
        ∃ o', (p.start store { capacity := some n }).advance k = .ended o' ∧
          o'.sink.written = o.sink.written ∧ o'.store = o.store ∧ o'.failure = o.failure) ∧
      ((∀ k o, (p.start store {}).advance k ≠ .ended o) →
        ∀ k o, (p.start store { capacity := some n }).advance k ≠ .ended o)) ∧
    ∀ b, (p.start store {}).Writes n b →
      ∃ j r value work v o, (p.start store {}).advance j = .going r ∧
        r.work = .print value :: work ∧ value.eval r.store = .ok v ∧
        r.sink.written.size ≤ n ∧ n < (r.sink.written ++ Run.printedLine v).size ∧
        (p.start store { capacity := some n }).advance (j + 1) = .ended o ∧
        o.failure = some .output ∧ o.store = r.store ∧
        ∀ i c, o.sink.bytes[i]? = some c ↔ i < n ∧ (p.start store {}).Writes i c := by
  have hs : (p.start store {}).sink.Reliable := Sink.reliable_empty
  have hn : (p.start store {}).sink.written.size ≤ n := Nat.zero_le n
  constructor
  · intro hfits
    have hsame (k : Nat) : (p.start store { capacity := some n }).advance k =
        ((p.start store {}).advance k).within n := by
      rcases Run.advance_within k hs hn with ⟨-, h⟩ | ⟨j, r, v, work, hfills⟩
      · exact h
      · obtain ⟨b, hb⟩ := hfills.writes
        exact absurd hb (hfits b)
    constructor
    · intro k o ho
      exact ⟨o.within n, by rw [hsame k, ho]; rfl, rfl, rfl, rfl⟩
    · intro hendless k o ho
      rw [hsame k] at ho
      cases h : (p.start store {}).advance k with
      | going r => rw [h] at ho; cases ho
      | ended o' => exact hendless k o' h
  · rintro b ⟨k, hk⟩
    rcases Run.advance_within k hs hn with ⟨hsize, -⟩ | ⟨j, r, v, work, hfills⟩
    · have hlt : n < ((p.start store {}).advance k).sink.bytes.length :=
        (List.getElem?_eq_some_iff.mp hk).1
      exact absurd hlt (Nat.not_lt.mpr hsize)
    · obtain ⟨value, hwork, hv⟩ := Run.printed?_eq_some hfills.printed
      exact ⟨j, r, value, work, v, _, hfills.reached, hwork, hv, hfills.fits, hfills.exceeds,
        hfills.ended, rfl, rfl, hfills.getElem?_full hs⟩

/-- a program that counts for ever and prints `12` each time -/
def counting : Program :=
  [.while (.int 1) [.print (.int 12), .assign "i" (.binary .add (.var "i") (.int 1))]]

/-- a program that fails behind its first line -/
def brief : Program := [.print (.text "é"), .print (.not (.text "é"))]

theorem brief_not_writes (b : UInt8) : ¬ (brief.start .empty {}).Writes 3 b := by
  have hbytes : ((brief.start .empty {}).advance 2).sink.bytes.length = 3 := by decide +kernel
  rintro ⟨k, hk⟩
  have hlt : 3 < ((brief.start .empty {}).advance k).sink.bytes.length :=
    (List.getElem?_eq_some_iff.mp hk).1
  rcases Nat.le_total k 2 with h | h
  · have hle := (Run.bytes_mono (r := brief.start .empty {}) Sink.reliable_empty h).length_le
    omega
  · obtain ⟨o, ho⟩ : ∃ o, (brief.start .empty {}).advance 2 = .ended o := ⟨_, rfl⟩
    rw [Run.advance_of_le h ho, ← ho, hbytes] at hlt
    exact Nat.lt_irrefl 3 hlt

theorem bounded_stream_cuts_run_counting :
    (∃ j o, (counting.start .empty { capacity := some 4 }).advance j = .ended o ∧
      o.failure = some .output ∧
      ∀ i c, o.sink.bytes[i]? = some c ↔ i < 4 ∧ (counting.start .empty {}).Writes i c) ∧
    ∃ o, (brief.start .empty { capacity := some 3 }).advance 2 = .ended o ∧
      o.failure = some (.negationMismatch .string) := by
  constructor
  · obtain ⟨j, -, -, -, -, o, -, -, -, -, -, hended, hfailure, -, hbytes⟩ :=
      (bounded_stream_cuts_run counting .empty 4).2 50 ⟨5, by decide +kernel⟩
    exact ⟨j + 1, o, hended, hfailure, hbytes⟩
  · obtain ⟨o, ho, -, -, hfailure⟩ :=
      ((bounded_stream_cuts_run brief .empty 3).1 brief_not_writes).1 2 _ rfl
    exact ⟨o, ho, hfailure⟩

end TinyScript
