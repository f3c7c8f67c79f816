import Mathlib.Data.List.Basic
import TinyScript.Proofs.Compile.Expression
import TinyScript.Proofs.Machine.Text
import TinyScript.Proofs.Run.Steps

/-!
# How a machine holds the variables

Between two statements the word of a variable is its number, or the address of its text, or zero if the
variable is not assigned, and the output of the machine is that of the run.

* `Layout.Encodes`        a word that stands for what a variable holds
* `Layout.Clean`          no text that a variable may hold has a zero byte; only then is the output the same
* `Represents`            a machine between two statements
* `Represents.printed`    code that prints
* `Represents.assigned`   code that changes one variable
-/

namespace TinyScript.Assembly

open Machine Layout

namespace Layout

variable {L : Layout}

structure TextAt (L : Layout) (t : Nat) (e : PoolEntry) : Prop where
  pos : 0 < t
  below : t + e.bytes.toList.length < L.slots
  placed : Placed L.image t (Fragment.literal e.label e.bytes.toList)

/-- The word of a variable for what the variable holds.  A text that a variable holds is always one that is
kept in the pool for this variable. -/
inductive Encodes (L : Layout) (name : String) : Option Value → Int32 → Prop
  | unset : Encodes L name none 0
  | number (n : Int32) (h : L.plan.isTextual name = false) : Encodes L name (some (.int n)) n
  | text (text : String) (e : PoolEntry) (t : Nat) (h : L.plan.isTextual name = true)
      (he : L.plan.entryFor? name text = some e) (ht : L.TextAt t e) :
      Encodes L name (some (.text text)) (Int32.ofNat t)

/-- no text that is kept for a variable has a zero byte -/
def Clean (L : Layout) : Prop :=
  ∀ name text e, L.plan.entryFor? name text = some e → 0 ∉ e.bytes.toList

theorem Loaded.textAt (h : L.Loaded) {e : PoolEntry} (he : e ∈ L.plan.pool.entries) :
    ∃ t, L.TextAt t e ∧ L.image.address? e.label = some t := by
  obtain ⟨t, hpos, hbelow, hp⟩ := h.literal e he
  exact ⟨t, ⟨hpos, hbelow, hp⟩, hp.1⟩

theorem placed_bytes {image : Image} {t : Nat} {bytes : List UInt8} {after : List Line}
    (h : Placed image t (bytes.map (fun b => .data (Int32.ofNat b.toNat) 1) ++ after)) :
    (∀ j, (hj : j < bytes.length) → image.words[t + j]? = some (Int32.ofNat bytes[j].toNat)) ∧
      Placed image (t + bytes.length) after := by
  induction bytes generalizing t with
  | nil => exact ⟨fun j hj => absurd hj (Nat.not_lt_zero j), h⟩
  | cons b bytes ih =>
    obtain ⟨hfirst, hrest⟩ := h
    obtain ⟨hwords, hafter⟩ := ih hrest
    refine ⟨fun j hj => ?_, ?_⟩
    · cases j with
      | zero => exact hfirst 0 Nat.one_pos
      | succ j =>
        have hw := hwords j (Nat.lt_of_succ_lt_succ hj)
        rwa [Nat.add_assoc, Nat.add_comm 1] at hw
    · rwa [Nat.add_assoc, Nat.add_comm 1] at hafter

/-- Where the memory is as it was loaded, it holds the texts of the listing. -/
theorem holdsText_of_placed {image : Image} {m : Machine} {label : String} {bytes : List UInt8}
    {t : Nat} (h : Placed image t (Fragment.literal label bytes))
    (hm : ∀ j ≤ bytes.length, m.memory[t + j]? = image.words[t + j]?) : HoldsText m t bytes := by
  obtain ⟨hbytes, hend⟩ := placed_bytes h.2
  refine ⟨fun j hj => ?_, ?_⟩
  · rw [List.length_map] at hj
    rw [hm j (Nat.le_of_lt hj), hbytes j hj, List.getElem_map]
  · rw [hm _ (Nat.le_refl _)]
    exact hend.1 0 Nat.one_pos

theorem TextAt.holdsText {m : Machine} {t : Nat} {e : PoolEntry} (h : L.TextAt t e)
    (hm : L.Intact m) : HoldsText m t e.bytes.toList := by
  have hbelow := h.below
  exact holdsText_of_placed h.placed fun j hj => hm.constant _ (by omega)

end Layout

/-! ### The machine between two statements -/

structure Represents (L : Layout) (store : Store) (sink : Sink) (m : Machine) : Prop where
  intact : L.Intact m
  pointer : m.get .stack = Int32.ofNat L.top
  words : ∀ name ∈ L.plan.names,
    ∃ w, m.memory[L.slot name]? = some w ∧ L.Encodes name (store.find? name) w
  output : L.Clean → m.output = sink.written
  reliable : sink.Reliable

namespace Represents

variable {L : Layout} {store : Store} {sink : Sink} {m m' : Machine}

theorem numbers (h : Represents L store sink m) {name : String} (hn : name ∈ L.plan.names)
    (ht : L.plan.isTextual name = false) :
    ∃ n, store.read name = .int n ∧ m.memory[L.slot name]? = some n := by
  obtain ⟨w, hw, henc⟩ := h.words name hn
  unfold Store.read
  generalize store.find? name = v at henc
  cases henc with
  | unset => exact ⟨0, rfl, hw⟩
  | number _ _ => exact ⟨w, rfl, hw⟩
  | text text e t htext _ _ => rw [ht] at htext; cases htext

theorem ready (h : Represents L store sink m) : L.Ready store L.top m :=
  ⟨h.intact, fun _ hn ht => h.numbers hn ht, h.pointer, L.stack_le_top, Nat.le_refl _⟩

theorem printed (h : Represents L store sink m) {lo hi : Nat} (hlo : L.buffer ≤ lo)
    (hk : Kept lo hi m m') {bytes : ByteArray} (ho : L.Clean → m'.output = m.output ++ bytes) :
    Represents L store (sink.add bytes) m' := by
  refine ⟨h.intact.kept hk (Nat.le_trans (Nat.le_add_right _ _) hlo), hk.stack.trans h.pointer,
    fun name hn => ?_, fun hc => ?_, h.reliable.add bytes⟩
  · obtain ⟨w, hw, henc⟩ := h.words name hn
    have hslot := slot_lt_buffer hn
    exact ⟨w, (hk.memory _ (.inl (by omega))).trans hw, henc⟩
  · rw [ho hc, h.output hc]
    rfl

theorem kept (h : Represents L store sink m) {lo hi : Nat} (hlo : L.buffer ≤ lo)
    (hk : Kept lo hi m m') (ho : m'.output = m.output) : Represents L store sink m' := by
  have hp : Represents L store (sink.add .empty) m' :=
    h.printed hlo hk fun _ => ho.trans ByteArray.append_empty.symm
  rwa [show sink.add .empty = sink from congrArg
    (fun w => Sink.mk w sink.capacity sink.flushFails) ByteArray.append_empty] at hp

/-- registers for passing values do not count between two statements -/
theorem set (h : Represents L store sink m) {r : Reg} (hr : r.Keeps) (hs : r ≠ .stack) (w : Int32) :
    Represents L store sink (m.set r w) := by
  have hz : r ≠ .zero := by
    rintro rfl
    exact hr rfl
  have hk : Kept L.buffer L.top m (m.set r w) := by
    refine .of_memory ?_ ?_ (memory_set ..)
    · rw [get_set hr, if_neg (Ne.symm hz)]
    · rw [get_set hr, if_neg (Ne.symm hs)]
  exact h.kept (Nat.le_refl _) hk (output_set ..)

theorem goTo (h : Represents L store sink m) (a : Nat) : Represents L store sink (m.goTo a) :=
  ⟨h.intact.of_memory rfl rfl, h.pointer, h.words, h.output, h.reliable⟩

theorem slot_ne {name other : String} (hn : name ∈ L.plan.names) (h : other ≠ name) :
    L.slot other ≠ L.slot name := by
  intro he
  have hi : L.plan.names.idxOf other = L.plan.names.idxOf name := Nat.add_left_cancel he
  exact h ((List.idxOf_inj hn).mp hi.symm).symm

theorem assigned (h : Represents L store sink m) {name : String} (hn : name ∈ L.plan.names)
    {v : Value} {w : Int32} (henc : L.Encodes name (some v) w)
    (hk : Kept (L.slot name) (L.slot name + 1) m m') (hw : m'.memory[L.slot name]? = some w)
    (ho : m'.output = m.output) : Represents L (store.set name v) sink m' := by
  refine ⟨h.intact.kept hk (Nat.le_add_right _ _), hk.stack.trans h.pointer, fun other ho => ?_,
    fun hc => ho.trans (h.output hc), h.reliable⟩
  by_cases he : other = name
  · subst he
    rw [Store.find?_set_self]
    exact ⟨w, hw, henc⟩
  · obtain ⟨w', hw', henc'⟩ := h.words other ho
    have hne := slot_ne hn he
    rw [Store.find?_set_of_ne store v he]
    exact ⟨w', (hk.memory _ (by omega)).trans hw', henc'⟩

end Represents

end TinyScript.Assembly
