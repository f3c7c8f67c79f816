import TinyScript.Proofs.Decimal.Digits
import TinyScript.Proofs.Machine.Layout

/-!
# The routine that prints a number

The routine takes the digits from minus the magnitude of its argument, the last one first, collects them in
the buffer and prints them from there in the other order.

* `minus`              minus a natural number, with what division by ten makes of it
* `Guard.Scratch`      a machine in which the routine can work, wherever its stack pointer is
* `Collecting`         the invariant of the loop that collects digits, with `collect_runs`
* `Replaying`          the invariant of the loop that prints them, with `replay_runs`
* `Returned`           what a call leaves behind
* `digits_run`         both loops
* `printInt_runs`      the routine
-/

namespace TinyScript.Assembly

open Machine Layout

/-! ### Minus the magnitude -/

/-- minus a natural number, as a word -/
def minus (q : Nat) : Int32 := Int32.ofInt (-q)

theorem toInt_minus {q : Nat} (h : q ≤ 2 ^ 31) : (minus q).toInt = -q :=
  Int32.toInt_ofInt_of_le (by omega) (by omega)

theorem minus_div {q : Nat} (h : q ≤ 2 ^ 31) : minus q / 10 = minus (q / 10) := by
  apply Int32.toInt_inj.mp
  rw [Int32.toInt_div_of_ne_right _ _ (by decide), toInt_minus h, toInt_minus (by omega)]
  show (-(q : Int)).tdiv 10 = -((q / 10 : Nat) : Int)
  rw [Int.neg_tdiv, Int.natCast_ediv]
  rfl

theorem minus_mod {q : Nat} (h : q ≤ 2 ^ 31) : 0 - minus q % 10 = Int32.ofNat (q % 10) := by
  have hmod : minus q % 10 = minus (q % 10) := by
    apply Int32.toInt_inj.mp
    rw [Int32.toInt_mod, toInt_minus h, toInt_minus (by omega)]
    show (-(q : Int)).tmod 10 = -((q % 10 : Nat) : Int)
    rw [Int.neg_tmod]
    rfl
  rw [hmod, minus, Int32.ofInt_neg, Int32.ofInt_eq_ofNat]
  simp

/-- a negative word is minus its magnitude -/
theorem eq_minus {n : Int32} (h : n.toInt < 0) : n = minus n.toInt.natAbs := by
  have hle := n.le_toInt
  apply Int32.toInt_inj.mp
  rw [toInt_minus (by omega)]
  omega

theorem zero_sub_eq_minus {n : Int32} (h : 0 < n.toInt) : 0 - n = minus n.toInt.natAbs := by
  have habs : ((n.toInt.natAbs : Nat) : Int) = n.toInt := Int.natAbs_of_nonneg (by omega)
  rw [minus, habs, Int32.ofInt_neg, Int32.ofInt_toInt, Int32.zero_sub]

theorem minus_eq_zero {q : Nat} (h : q ≤ 2 ^ 31) : minus q = 0 ↔ q = 0 := by
  rw [← Int32.toInt_inj, toInt_minus h]
  show -(q : Int) = 0 ↔ _
  omega

theorem lowByte_ofNat {n : Nat} (h : n < 256) : lowByte (Int32.ofNat n) = UInt8.ofNat n := by
  unfold lowByte UInt8.ofInt
  rw [Int32.toInt_ofNat_of_lt (by omega)]
  congr 1
  omega

/-! ### The loops -/

/-- words of memory that hold numbers, one behind the other -/
def Stored (m : Machine) (a : Nat) (ds : List Nat) : Prop :=
  ∀ j, (h : j < ds.length) → m.memory[a + j]? = some (Int32.ofNat ds[j])

theorem Stored.of_memory {m m' : Machine} {a : Nat} {ds : List Nat} (h : Stored m a ds)
    (hm : m'.memory = m.memory) : Stored m' a ds := by
  intro j hj
  rw [hm]
  exact h j hj

theorem Stored.concat {m m' : Machine} {a d : Nat} {ds : List Nat} (h : Stored m a ds)
    (hm : ∀ x, m'.memory[x]? = if x = a + ds.length then some (Int32.ofNat d) else m.memory[x]?) :
    Stored m' a (ds ++ [d]) := by
  intro j hj
  rw [List.length_append, List.length_singleton] at hj
  rw [hm]
  rcases Nat.lt_or_eq_of_le (Nat.le_of_lt_succ hj) with hlt | rfl
  · rw [if_neg (by omega), List.getElem_append_left hlt]
    exact h j hlt
  · rw [if_pos rfl, List.getElem_concat_length rfl]

/-- a machine that may go on anywhere with its stack pointer and may write to the words of the buffer -/
structure Guard.Scratch (G : Guard) (b : Nat) (m : Machine) : Prop extends G.Reader m where
  label : G.image.address? Fragment.bufferLabel = some b
  buffer : b + Fragment.bufferWords ≤ m.memory.size
  writable : ∀ x, b ≤ x → x < b + Fragment.bufferWords → G.Writable x

theorem Guard.Scratch.kept {G : Guard} {b lo hi : Nat} {m m' : Machine} (h : G.Scratch b m)
    (hk : Kept lo hi m m') : G.Scratch b m' :=
  ⟨h.toReader.kept hk, h.label, hk.size ▸ h.buffer, h.writable⟩

/-- between two statements of a listing -/
theorem Layout.Intact.scratch {L : Layout} {m : Machine} (h : L.Intact m) (hL : L.Loaded)
    (hs : m.get .stack = Int32.ofNat L.top) : L.guard.Scratch L.buffer m := by
  have htop := L.stack_le_top
  refine ⟨h.reader hL hs, hL.buffer, ?_, fun x hlo hhi => ?_⟩
  · rw [h.size]
    exact Nat.le_succ_of_le htop
  · exact ⟨Nat.le_trans (Nat.le_add_right _ _) hlo, Nat.lt_of_lt_of_le hhi htop⟩

/-- What the routine has done so far: apart from registers it has changed only the buffer, which holds
the digits `ds`, and it still knows where to return. -/
structure Printing (b : Nat) (m : Machine) (ds : List Nat) (c : Machine) : Prop where
  kept : Kept b (b + Fragment.bufferWords) m c
  link : c.get .link = m.get .link
  stored : Stored c b ds

/-- The invariant of the first loop: of the number `q` is left. -/
structure Collecting (b : Nat) (m : Machine) (q : Nat) (ds : List Nat) (c : Machine) : Prop
    extends Printing b m ds c where
  output : c.output = m.output
  left : c.get .left = Int32.ofNat ds.length
  result : c.get .result = minus q
  address : c.get .address = 10

/-- The invariant of the second loop: the first `i` of the digits are still to be printed. -/
structure Replaying (b : Nat) (m : Machine) (i : Nat) (ds : List Nat) (c : Machine) : Prop
    extends Printing b m ds c where
  output : c.output = m.output ++ ((ds.drop i).map Decimal.digitByte).reverse.toByteArray
  left : c.get .left = Int32.ofNat i

/-- The routine has printed these bytes since `m` and has returned to where the link register points. -/
structure Returned (b : Nat) (bytes : List UInt8) (m m' : Machine) : Prop
    extends Prints b (b + Fragment.bufferWords) (m.get .link).toInt.toNat bytes m m' where
  link : m'.get .link = m.get .link

theorem Returned.after {b : Nat} {first rest : List UInt8} {m m' m'' : Machine}
    (hk : Kept b (b + Fragment.bufferWords) m m') (hlink : m'.get .link = m.get .link)
    (ho : m'.output = m.output ++ first.toByteArray) (h : Returned b rest m' m'') :
    Returned b (first ++ rest) m m'' :=
  ⟨.after hk ho (hlink ▸ h.toPrints), h.link.trans hlink⟩

theorem Returned.after_quiet {b : Nat} {bytes : List UInt8} {m m' m'' : Machine}
    (hk : Kept b (b + Fragment.bufferWords) m m') (hlink : m'.get .link = m.get .link)
    (ho : m'.output = m.output) (h : Returned b bytes m' m'') : Returned b bytes m m'' :=
  ⟨.after_quiet hk ho (hlink ▸ h.toPrints), h.link.trans hlink⟩

section

variable {G : Guard} {a b : Nat} (hp : Placed G.image a Fragment.printInt) {m : Machine}
  (hm : G.Scratch b m)

include hm in
theorem addressAt?_buffer {c c' : Machine} {r : Reg} {j : Nat}
    (hk : Kept b (b + Fragment.bufferWords) m c) (hc : c'.memory = c.memory)
    (hj : j < Fragment.bufferWords) (hr : c'.get r = Int32.ofNat (b + j)) :
    c'.addressAt? r 0 = some (b + j) := by
  have hsize := hk.size
  have hbuffer := hm.buffer
  have hlimit := hm.size
  refine addressAt?_ofNat hr ?_ ?_
  · rw [hc]
    omega
  · rw [hc]
    omega

include hp hm

/-- one digit is taken from the number and put into the buffer -/
theorem collect_round {q : Nat} (hlimit : q ≤ 2 ^ 31) {ds : List Nat}
    (hds : ds.length < Fragment.bufferWords) {c : Machine} (h : Collecting b m q ds c) :
    Reaches G 0 (fun c' => c'.pc = a + 13 ∧ Collecting b m (q / 10) (ds ++ [q % 10]) c')
      (c.goTo (a + 5)) := by
  have hstack := h.kept.stack
  have hzero : c.get .zero = 0 := h.kept.zero.trans hm.zero
  have hbuffer := hm.buffer
  have hsize := h.kept.size
  have hquot := minus_div hlimit
  have hrem := minus_mod hlimit
  refine Reaches.alu (hp.code (k := 5) rfl) (hm.balanced _ hstack) ?_
  refine Reaches.alu (hp.code (k := 6) rfl) (hm.balanced _ (by simp [hstack])) ?_
  refine Reaches.alu (hp.code (k := 7) rfl) (hm.balanced _ (by simp [hstack])) ?_
  refine Reaches.addi (hp.code (k := 8) rfl) (hm.balanced _ (by simp [hstack])) ?_
  refine Reaches.la (hp.code (k := 9) rfl) (hm.balanced _ (by simp [hstack])) hm.label ?_
  refine Reaches.alu (hp.code (k := 10) rfl) (hm.balanced _ (by simp [hstack])) ?_
  refine Reaches.sw (y := b + ds.length) (hp.code (k := 11) rfl)
    (hm.balanced _ (by simp [hstack])) ?_ (hm.writable _ (by omega) (by omega)) ?_
  · exact addressAt?_buffer hm h.kept (by simp) hds (by simp [compute, h.left])
  refine Reaches.addi (hp.code (k := 12) rfl) (hm.balanced _ (by simp [hstack])) ?_
  generalize hc : Machine.set (Machine.store _ _ _) Reg.left _ = c'
  have hmemory : ∀ x, c'.memory[x]? =
      if x = b + ds.length then some (Int32.ofNat (q % 10)) else c.memory[x]? := by
    intro x
    rw [← hc, memory_set, getElem?_store (by simp only [memory_set]; omega)]
    simp [compute, h.result, h.address, hrem, hzero]
  have hkept : Kept b (b + Fragment.bufferWords) c c' := by
    refine ⟨?_, ?_, ?_, fun x hx => ?_⟩
    · rw [← hc]
      simp
    · rw [← hc]
      simp
    · rw [← hc]
      simp
    · rw [hmemory, if_neg (by omega)]
  refine .here ⟨rfl, ⟨h.kept.trans (hkept.trans (.of_memory rfl rfl rfl)), ?_,
    (h.stored.concat hmemory).of_memory rfl⟩, ?_, ?_, ?_, ?_⟩
  · rw [get_goTo, ← hc, ← h.link]
    simp
  · rw [output_goTo, ← hc, ← h.output]
    simp
  · rw [get_goTo, ← hc]
    simp [h.left]
  · rw [get_goTo, ← hc]
    simp [compute, h.result, h.address, hquot]
  · rw [get_goTo, ← hc]
    simp [h.address]

/-- **All digits are collected.** -/
theorem collect_runs {q : Nat} (hlimit : q ≤ 2 ^ 31) {ds : List Nat}
    (hlen : ds.length + (Decimal.lowDigits q).length ≤ Fragment.bufferWords) {c : Machine}
    (h : Collecting b m q ds c) :
    Reaches G 0 (fun c' => c'.pc = a + 14 ∧ Collecting b m 0 (ds ++ Decimal.lowDigits q) c')
      (c.goTo (a + 5)) := by
  induction q using Nat.strongRecOn generalizing ds c with
  | ind q ih =>
    have hds : ds.length < Fragment.bufferWords := by
      have hpos := Decimal.length_lowDigits_pos q
      omega
    refine (collect_round hp hm hlimit hds h).trans fun c' ⟨hpc, h'⟩ => ?_
    have hstack := h'.kept.stack
    have hzero : c'.get .zero = 0 := h'.kept.zero.trans hm.zero
    rw [machine_at hpc]
    rcases Nat.lt_or_ge q 10 with hlast | hmore
    · -- the quotient is zero, so this was the last digit
      have hquot : q / 10 = 0 := Nat.div_eq_of_lt hlast
      rw [hquot, Nat.mod_eq_of_lt hlast] at h'
      rw [Decimal.lowDigits_of_lt hlast]
      refine Reaches.branch_not_taken (hp.code (k := 13) rfl) (hm.balanced _ hstack) ?_
        (.here ⟨rfl, ⟨h'.kept.trans (.of_memory rfl rfl rfl), h'.link, h'.stored⟩, h'.output,
          h'.left, h'.result, h'.address⟩)
      rw [h'.result, hzero]
      rfl
    · have hlow := Decimal.lowDigits_of_le hmore
      rw [hlow, List.length_cons] at hlen
      refine Reaches.branch_taken (hp.code (k := 13) rfl) (hm.balanced _ hstack) ?_
        (hp.address (k := 5) (by decide)) ?_
      · have hquot : q / 10 ≠ 0 := by omega
        rw [h'.result, hzero]
        exact bne_iff_ne.mpr fun he => hquot ((minus_eq_zero (by omega)).mp he)
      · have hrest := ih (q / 10) (by omega) (by omega)
          (by rw [List.length_append, List.length_singleton]; omega) h'
        rwa [List.append_assoc, List.singleton_append, ← hlow] at hrest

/-- the digit that was stored last, of those that are left, is printed -/
theorem replay_round {ds : List Nat} (hds : ∀ d ∈ ds, d < 10)
    (hlen : ds.length ≤ Fragment.bufferWords) {i : Nat} (hle : i < ds.length) {c : Machine}
    (h : Replaying b m (i + 1) ds c) :
    Reaches G 0 (fun c' => c'.pc = a + 21 ∧ Replaying b m i ds c') (c.goTo (a + 14)) := by
  have hstack := h.kept.stack
  have hleft : c.get .left + -1 = Int32.ofNat i := by rw [h.left, ofNat_succ_sub]
  refine Reaches.addi (hp.code (k := 14) rfl) (hm.balanced _ hstack) ?_
  rw [hleft]
  refine Reaches.li (hp.code (k := 15) rfl) (hm.balanced _ (by simp [hstack])) ?_
  refine Reaches.la (hp.code (k := 16) rfl) (hm.balanced _ (by simp [hstack])) hm.label ?_
  refine Reaches.alu (hp.code (k := 17) rfl) (hm.balanced _ (by simp [hstack])) ?_
  refine Reaches.lw (hp.code (k := 18) rfl) (hm.balanced _ (by simp [hstack]))
    (addressAt?_buffer hm h.kept (by simp) (show i < _ by omega) (by simp [compute]))
    (h.stored i hle) ?_
  refine Reaches.alu (hp.code (k := 19) rfl) (hm.balanced _ (by simp [hstack])) ?_
  refine Reaches.ewrite (hp.code (k := 20) rfl) (hm.balanced _ (by simp [hstack])) ?_
  generalize hc : Machine.emit _ _ = c'
  have hkept : Kept b (b + Fragment.bufferWords) c c' := by
    rw [← hc]
    exact .of_memory (by simp) (by simp) (by simp)
  have hmemory : c'.memory = c.memory := by
    rw [← hc]
    simp
  have hbyte : lowByte (48 + Int32.ofNat ds[i]) = Decimal.digitByte ds[i] := by
    have hd : ds[i] < 10 := hds _ (List.getElem_mem hle)
    rw [Decimal.digitByte, ← lowByte_ofNat (by omega), Int32.ofNat_add]
    rfl
  have hdrop : ((ds.drop i).map Decimal.digitByte).reverse =
      ((ds.drop (i + 1)).map Decimal.digitByte).reverse ++ [Decimal.digitByte ds[i]] := by
    rw [List.drop_eq_getElem_cons hle, List.map_cons, List.reverse_cons]
  refine .here ⟨rfl, ⟨h.kept.trans (hkept.trans (.of_memory rfl rfl rfl)), ?_,
    h.stored.of_memory hmemory⟩, ?_, ?_⟩
  · rw [get_goTo, ← hc, ← h.link]
    simp
  · rw [output_goTo, ← hc, output_emit, hdrop, List.toByteArray_append, ← ByteArray.append_assoc,
      ← h.output, ← hbyte]
    simp [compute]
  · rw [get_goTo, ← hc]
    simp

/-- **The digits are printed from the last that was stored to the first**, and the routine returns. -/
theorem replay_runs {ds : List Nat} (hds : ∀ d ∈ ds, d < 10)
    (hlen : ds.length ≤ Fragment.bufferWords) {i : Nat} (hpos : 0 < i) (hle : i ≤ ds.length)
    {c : Machine} (h : Replaying b m i ds c) :
    Reaches G 0 (Returned b (ds.map Decimal.digitByte).reverse m) (c.goTo (a + 14)) := by
  induction i generalizing c with
  | zero => cases hpos
  | succ i ih =>
    refine (replay_round hp hm hds hlen hle h).trans fun c' ⟨hpc, h'⟩ => ?_
    have hstack := h'.kept.stack
    have hzero : c'.get .zero = 0 := h'.kept.zero.trans hm.zero
    rw [machine_at hpc]
    rcases Nat.eq_zero_or_pos i with rfl | hpos
    · refine Reaches.branch_not_taken (hp.code (k := 21) rfl) (hm.balanced _ hstack) ?_ ?_
      · rw [h'.left, hzero]
        rfl
      · refine Reaches.jalr (hp.code (k := 22) rfl) (hm.balanced _ hstack)
          (.here ⟨⟨?_, ?_, ?_⟩, h'.link⟩)
        · rw [pc_goTo, h'.link]
          exact congrArg Int.toNat (Int.add_zero _)
        · exact h'.kept.trans (.of_memory rfl rfl rfl)
        · rw [set_zero, output_goTo, h'.output, List.drop_zero]
    · refine Reaches.branch_taken (hp.code (k := 21) rfl) (hm.balanced _ hstack) ?_
        (hp.address (k := 14) (by decide)) (ih hpos (by omega) h')
      have hwords : Fragment.bufferWords = 12 := rfl
      rw [h'.left, hzero]
      exact bne_iff_ne.mpr (ofNat_ne_zero hpos (show i < 2 ^ 31 by omega))

/-- From the label of the digits on, the digits of the number are printed whose negative is left. -/
theorem digits_run {q : Nat} (hlimit : q ≤ 2 ^ 31) (hr : m.get .result = minus q) :
    Reaches G 0 (Returned b (Decimal.digitBytes q) m) (m.goTo (a + 3)) := by
  have hlen : (Decimal.lowDigits q).length ≤ Fragment.bufferWords :=
    Nat.le_trans (Decimal.length_lowDigits_le (k := 9) (by omega)) (by decide)
  refine Reaches.li (hp.code (k := 3) rfl) (hm.balanced _ rfl) ?_
  refine Reaches.li (hp.code (k := 4) rfl) (hm.balanced _ (by simp)) ?_
  generalize hc : Machine.set _ Reg.address _ = c
  have hkept : Kept b (b + Fragment.bufferWords) m c := by
    rw [← hc]
    exact .of_memory (by simp) (by simp) (by simp)
  have hcollect : Collecting b m q [] c := by
    refine ⟨⟨hkept, ?_, fun j hj => nomatch hj⟩, ?_, ?_, ?_, ?_⟩
    · rw [← hc]
      simp
    · rw [← hc]
      simp
    · rw [← hc]
      simp
    · rw [← hc]
      simp [hr]
    · rw [← hc]
      simp
  refine (collect_runs hp hm hlimit (by simpa using hlen) hcollect).trans ?_
  rintro c' ⟨hpc, h⟩
  rw [List.nil_append] at h
  have hreplay : Replaying b m (Decimal.lowDigits q).length (Decimal.lowDigits q) c' := by
    refine ⟨h.toPrinting, ?_, h.left⟩
    rw [h.output, List.drop_length]
    exact ByteArray.append_empty.symm
  rw [machine_at hpc]
  exact replay_runs hp hm (fun d hd => Decimal.lt_ten_of_mem_lowDigits hd) hlen
    (Decimal.length_lowDigits_pos q) (Nat.le_refl _) hreplay

/-! ### The routine -/

/-- a negative number: a minus sign, and the digits of its magnitude -/
theorem negative_runs (hneg : (m.get .argument).toInt < 0) :
    Reaches G 1 (Returned b (Decimal.bytes (m.get .argument).toInt) m) (m.goTo a) := by
  have hzero := hm.zero
  have hle := (m.get .argument).le_toInt
  refine Reaches.branch_not_taken (hp.code (k := 0) rfl) (hm.balanced _ rfl) ?_ ?_
  · rw [hzero]
    exact beq_eq_false_iff_ne.mpr fun e => by rw [e] at hneg; cases hneg
  refine Reaches.alu (hp.code (k := 1) rfl) (hm.balanced _ rfl) ?_
  refine Reaches.branch_taken (hp.code (k := 2) rfl) (hm.balanced _ (by simp)) ?_
    (hp.address (k := 26) (by decide)) ?_
  · simpa [Machine.holds, hzero, Int32.lt_iff_toInt_lt] using hneg
  refine Reaches.li (hp.code (k := 26) rfl) (hm.balanced _ (by simp)) ?_
  refine Reaches.ewrite (hp.code (k := 27) rfl) (hm.balanced _ (by simp)) ?_
  refine Reaches.addi (hp.code (k := 28) rfl) (hm.balanced _ (by simp)) ?_
  refine Reaches.jal (hp.code (k := 29) rfl) (hm.balanced _ (by simp))
    (hp.address (k := 3) (by decide)) ?_
  rw [set_zero]
  generalize hc : Machine.set _ Reg.result _ = c
  have hkept : Kept b (b + Fragment.bufferWords) m c := by
    rw [← hc]
    exact .of_memory (by simp) (by simp) (by simp)
  have hlink : c.get .link = m.get .link := by
    rw [← hc]
    simp
  have hsign : c.output = m.output ++ [45].toByteArray := by
    have hminus : lowByte 45 = 45 := rfl
    rw [← hc]
    simp [hminus]
  have hleft : c.get .result = minus (m.get .argument).toInt.natAbs := by
    rw [← eq_minus hneg, ← hc]
    simp
  rw [Decimal.bytes, if_pos hneg]
  exact (digits_run hp (hm.kept hkept) (by omega) hleft).imp fun c' h => .after hkept hlink hsign h

/-- zero, which has a branch of its own -/
theorem zero_runs (hnull : m.get .argument = 0) :
    Reaches G 1 (Returned b (Decimal.bytes (m.get .argument).toInt) m) (m.goTo a) := by
  refine Reaches.branch_taken (hp.code (k := 0) rfl) (hm.balanced _ rfl) ?_
    (hp.address (k := 23) (by decide)) ?_
  · rw [hm.zero, hnull]
    rfl
  refine Reaches.li (hp.code (k := 23) rfl) (hm.balanced _ rfl) ?_
  refine Reaches.ewrite (hp.code (k := 24) rfl) (hm.balanced _ (by simp)) ?_
  refine Reaches.jalr (hp.code (k := 25) rfl) (hm.balanced _ (by simp))
    (.here ⟨⟨?_, ?_, ?_⟩, by simp⟩)
  · simp
  · exact .of_memory (by simp) (by simp) (by simp)
  · have hbyte : lowByte 48 = 48 := rfl
    have hbytes : Decimal.bytes (0 : Int32).toInt = [48] := by decide +kernel
    rw [hnull, hbytes]
    simp [hbyte]

/-- a positive number: nothing but its digits -/
theorem positive_runs (hpos : 0 < (m.get .argument).toInt) :
    Reaches G 1 (Returned b (Decimal.bytes (m.get .argument).toInt) m) (m.goTo a) := by
  have hzero := hm.zero
  have hlt := (m.get .argument).toInt_lt
  refine Reaches.branch_not_taken (hp.code (k := 0) rfl) (hm.balanced _ rfl) ?_ ?_
  · rw [hzero]
    exact beq_eq_false_iff_ne.mpr fun e => by rw [e] at hpos; cases hpos
  refine Reaches.alu (hp.code (k := 1) rfl) (hm.balanced _ rfl) ?_
  refine Reaches.branch_not_taken (hp.code (k := 2) rfl) (hm.balanced _ (by simp)) ?_ ?_
  · have hge : ¬ (m.get .argument).toInt < (0 : Int32).toInt := by
      rw [Int32.toInt_zero]
      omega
    simpa [Machine.holds, hzero, Int32.lt_iff_toInt_lt] using hge
  generalize hc : Machine.set _ Reg.result _ = c
  have hkept : Kept b (b + Fragment.bufferWords) m c := by
    rw [← hc]
    exact .of_memory (by simp) (by simp) (by simp)
  have hlink : c.get .link = m.get .link := by
    rw [← hc]
    simp
  have hquiet : c.output = m.output := by
    rw [← hc]
    simp
  have hleft : c.get .result = minus (m.get .argument).toInt.natAbs := by
    rw [← zero_sub_eq_minus hpos, ← hc]
    simp [compute, hzero]
  rw [Decimal.bytes, if_neg (by omega)]
  exact (digits_run hp (hm.kept hkept) (by omega) hleft).imp fun c' h =>
    .after_quiet hkept hlink hquiet h

/-- **The routine prints its argument in decimal** and returns. -/
theorem printInt_runs :
    Reaches G 1 (Returned b (Decimal.bytes (m.get .argument).toInt) m) (m.goTo a) := by
  rcases Int.lt_trichotomy (m.get .argument).toInt 0 with hneg | hnull | hpos
  · exact negative_runs hp hm hneg
  · exact zero_runs hp hm (Int32.toInt_inj.mp hnull)
  · exact positive_runs hp hm hpos

end

end TinyScript.Assembly
