import TinyScript.Proofs.Machine.PrintInt
import TinyScript.Proofs.Text.Bytes

/-!
# Code that writes texts

A literal is written byte by byte.  A text variable is written by a loop that runs from the word that the
variable points to up to the first zero.

* `writeBytes_runs`          the bytes of a literal
* `writeTextVar_unset`       a variable without a text, which is written as zero
* `writeTextVar_runs`        a variable with a text
* `divisionTrap_runs`        the message of the trap, with the machine at its last instruction
-/

namespace TinyScript.Assembly

open Machine Layout

/-! ### Literals -/

theorem lowByte_toNat (b : UInt8) : lowByte (Int32.ofNat b.toNat) = b := by
  rw [lowByte_ofNat b.toNat_lt, UInt8.ofNat_toNat]

theorem size_writeBytes (bytes : List UInt8) :
    size (bytes.flatMap Fragment.writeByte) = 2 * bytes.length := by
  induction bytes with
  | nil => rfl
  | cons b bytes ih =>
    rw [List.flatMap_cons, size_append, ih, Fragment.writeByte, size_code, List.length_cons]
    show 2 + 2 * _ = 2 * (_ + 1)
    omega

theorem size_writeTextVar (slot loopLabel endLabel : String) :
    size (Fragment.writeTextVar slot loopLabel endLabel) = 11 := by
  rw [Fragment.writeTextVar, size_append, size_append, size_code, size_cons, size_code]
  rfl

variable {G : Guard} {a : Nat} {m : Machine}

/-- Bytes are written one after the other, and only registers change. -/
theorem writeBytes_runs (lo hi : Nat) {bytes : List UInt8}
    (hp : Placed G.image a (bytes.flatMap Fragment.writeByte))
    (hb : ∀ c : Machine, a ≤ c.pc → c.get .stack = m.get .stack → G.Balanced c) :
    Reaches G 0 (Prints lo hi (a + 2 * bytes.length) bytes m) (m.goTo a) := by
  induction bytes generalizing a m with
  | nil =>
    refine .here ⟨rfl, .of_memory rfl rfl rfl, ?_⟩
    exact (ByteArray.append_empty).symm
  | cons b bytes ih =>
    rw [List.flatMap_cons, placed_append] at hp
    obtain ⟨hfirst, hrest⟩ := hp
    refine Reaches.li (hfirst.code (k := 0) rfl) (hb _ (Nat.le_refl a) rfl) ?_
    refine Reaches.ewrite (hfirst.code (k := 1) rfl) (hb _ (Nat.le_succ a) (by simp)) ?_
    generalize hc : Machine.emit _ _ = c
    have hck : Kept lo hi m c := by
      rw [← hc]
      exact .of_memory (by simp) (by simp) (by simp)
    have hco : c.output = m.output ++ [b].toByteArray := by
      rw [← hc]
      simp [lowByte_toNat]
    have hsize : size (Fragment.writeByte b) = 2 := rfl
    rw [List.length_cons, show a + 2 * (bytes.length + 1) = a + 2 + 2 * bytes.length by omega]
    have hgo (c' : Machine) (hpc : a + 2 ≤ c'.pc) (hs : c'.get .stack = c.get .stack) : G.Balanced c' :=
      hb c' (by omega) (hs.trans hck.stack)
    exact (ih hrest hgo).imp fun m' h => .after hck hco h

/-! ### Text variables -/

/-- the bytes of a text, one to a word, with a zero behind them -/
def HoldsText (m : Machine) (t : Nat) (bytes : List UInt8) : Prop :=
  Stored m t (bytes.map UInt8.toNat) ∧ m.memory[t + bytes.length]? = some 0

theorem HoldsText.first {b : UInt8} {bytes : List UInt8} {t : Nat}
    (h : HoldsText m t (b :: bytes)) : m.memory[t]? = some (Int32.ofNat b.toNat) :=
  h.1 0 (Nat.succ_pos _)

theorem HoldsText.rest {b : UInt8} {bytes : List UInt8} {t : Nat}
    (h : HoldsText m t (b :: bytes)) : HoldsText m (t + 1) bytes := by
  refine ⟨fun j hj => ?_, ?_⟩
  · rw [show t + 1 + j = t + (j + 1) by omega]
    exact h.1 (j + 1) (Nat.succ_lt_succ hj)
  · have hend := h.2
    rwa [List.length_cons, Nat.add_comm bytes.length, ← Nat.add_assoc] at hend

theorem HoldsText.of_memory {m' : Machine} {bytes : List UInt8} {t : Nat}
    (h : HoldsText m t bytes) (hm : m'.memory = m.memory) : HoldsText m' t bytes :=
  ⟨h.1.of_memory hm, hm ▸ h.2⟩

section

variable (lo hi : Nat) {slot loopLabel endLabel : String} {v : Nat}
  (hp : Placed G.image a (Fragment.writeTextVar slot loopLabel endLabel))
  (hslot : G.image.address? slot = some v) (hm : G.Reader m)

include hp hslot hm

theorem writeTextVar_unset (hvalue : m.memory[v]? = some 0) :
    Reaches G 1 (Prints lo hi (a + 11) [48] m) (m.goTo a) := by
  have hz := hm.zero
  obtain ⟨hv, -⟩ := Array.getElem?_eq_some_iff.mp hvalue
  refine Reaches.la (hp.code (k := 0) rfl) (hm.balanced _ rfl) hslot ?_
  refine Reaches.lw (hp.code (k := 1) rfl) (hm.balanced _ (by simp))
    (addressAt?_ofNat (a := v) (by simp) (by simpa using hv) (by simpa using hm.size))
    (by simpa using hvalue) ?_
  refine Reaches.branch_not_taken (hp.code (k := 2) rfl) (hm.balanced _ (by simp)) ?_ ?_
  · simp [Machine.holds, hz]
  refine Reaches.li (hp.code (k := 3) rfl) (hm.balanced _ (by simp)) ?_
  refine Reaches.ewrite (hp.code (k := 4) rfl) (hm.balanced _ (by simp)) ?_
  refine Reaches.jal (hp.code (k := 5) rfl) (hm.balanced _ (by simp))
    (hp.address (k := 11) (.tail _ (.head _))) ?_
  rw [set_zero]
  refine .here ⟨rfl, .of_memory (by simp) (by simp) (by simp), ?_⟩
  have hbyte : lowByte 48 = 48 := rfl
  simp [hbyte]

end

section

variable (lo hi : Nat) {slot loopLabel endLabel : String}
  (hp : Placed G.image a (Fragment.writeTextVar slot loopLabel endLabel))

include hp

/-- the loop ends at a zero -/
theorem writeLoop_end {t : Nat} (hm : G.Reader m) (ha : m.get .argument = Int32.ofNat t)
    (hend : m.memory[t]? = some 0) :
    Reaches G 0 (Prints lo hi (a + 11) [] m) (m.goTo (a + 6)) := by
  have hz := hm.zero
  obtain ⟨ht, -⟩ := Array.getElem?_eq_some_iff.mp hend
  refine Reaches.lw (hp.code (k := 6) rfl) (hm.balanced _ rfl) (addressAt?_ofNat ha ht hm.size) hend ?_
  refine Reaches.branch_taken (hp.code (k := 7) rfl) (hm.balanced _ (by simp)) ?_
    (hp.address (k := 11) (.tail _ (.head _))) ?_
  · simp [Machine.holds, hz]
  · refine .here ⟨rfl, .of_memory (by simp) (by simp) (by simp), ?_⟩
    exact (output_set ..).trans ByteArray.append_empty.symm

/-- any other byte is written, and the loop goes on with the next word -/
theorem writeLoop_round {t : Nat} (hm : G.Reader m) (ha : m.get .argument = Int32.ofNat t)
    {b : UInt8} (hb : b ≠ 0) (hword : m.memory[t]? = some (Int32.ofNat b.toNat)) :
    Reaches G 0 (fun c => Prints lo hi (a + 6) [b] m c ∧ c.memory = m.memory ∧
      c.get .argument = Int32.ofNat (t + 1)) (m.goTo (a + 6)) := by
  have hz := hm.zero
  have hpos : 0 < b.toNat := Nat.pos_of_ne_zero fun e => hb (UInt8.toNat_inj.mp e)
  have hne : Int32.ofNat b.toNat ≠ 0 :=
    ofNat_ne_zero hpos (Nat.lt_trans b.toNat_lt (by decide))
  obtain ⟨ht, -⟩ := Array.getElem?_eq_some_iff.mp hword
  refine Reaches.lw (hp.code (k := 6) rfl) (hm.balanced _ rfl) (addressAt?_ofNat ha ht hm.size) hword ?_
  refine Reaches.branch_not_taken (hp.code (k := 7) rfl) (hm.balanced _ (by simp)) ?_ ?_
  · simpa [Machine.holds, hz] using hne
  refine Reaches.ewrite (hp.code (k := 8) rfl) (hm.balanced _ (by simp)) ?_
  refine Reaches.addi (hp.code (k := 9) rfl) (hm.balanced _ (by simp)) ?_
  refine Reaches.jal (hp.code (k := 10) rfl) (hm.balanced _ (by simp))
    (hp.address (k := 6) (.head _)) ?_
  rw [set_zero]
  refine .here ⟨⟨rfl, .of_memory (by simp) (by simp) (by simp), ?_⟩, by simp, by simp [ha]⟩
  simp [lowByte_toNat]

/-- The loop writes the text up to the first zero. -/
theorem writeLoop_runs {t : Nat} {bytes : List UInt8} (hm : G.Reader m) (htext : HoldsText m t bytes)
    (ha : m.get .argument = Int32.ofNat t) :
    Reaches G 0 (Prints lo hi (a + 11) (bytes.takeWhile (· ≠ 0)) m) (m.goTo (a + 6)) := by
  induction bytes generalizing t m with
  | nil => exact writeLoop_end lo hi hp hm ha htext.2
  | cons b bytes ih =>
    by_cases hb : b = 0
    · subst hb
      exact writeLoop_end lo hi hp hm ha htext.first
    · refine (writeLoop_round lo hi hp hm ha hb htext.first).trans ?_
      rintro c ⟨hprints, hmemory, hargument⟩
      rw [machine_at hprints.pc, List.takeWhile_cons, if_pos (decide_eq_true hb)]
      exact (ih (hm.kept hprints.kept) (htext.rest.of_memory hmemory) hargument).imp fun m' h =>
        .after hprints.kept hprints.output h

/-- A text variable that points to a text is written up to the first zero of the text. -/
theorem writeTextVar_runs {v : Nat} (hslot : G.image.address? slot = some v) (hm : G.Reader m)
    {t : Nat} {bytes : List UInt8} (hpos : 0 < t) (hvalue : m.memory[v]? = some (Int32.ofNat t))
    (htext : HoldsText m t bytes) :
    Reaches G 1 (Prints lo hi (a + 11) (bytes.takeWhile (· ≠ 0)) m) (m.goTo a) := by
  have hz := hm.zero
  have hsize := hm.size
  obtain ⟨hv, -⟩ := Array.getElem?_eq_some_iff.mp hvalue
  obtain ⟨hend, -⟩ := Array.getElem?_eq_some_iff.mp htext.2
  refine Reaches.la (hp.code (k := 0) rfl) (hm.balanced _ rfl) hslot ?_
  refine Reaches.lw (hp.code (k := 1) rfl) (hm.balanced _ (by simp))
    (addressAt?_ofNat (a := v) (by simp) (by simpa using hv) (by simpa using hsize))
    (by simpa using hvalue) ?_
  refine Reaches.branch_taken (hp.code (k := 2) rfl) (hm.balanced _ (by simp)) ?_
    (hp.address (k := 6) (.head _)) ?_
  · simpa [Machine.holds, hz] using ofNat_ne_zero hpos (by omega)
  generalize hc : Machine.set _ Reg.argument _ = c
  have hck : Kept lo hi m c := by
    rw [← hc]
    exact .of_memory (by simp) (by simp) (by simp)
  have hcm : c.memory = m.memory := by
    rw [← hc]
    simp
  have hco : c.output = m.output := by
    rw [← hc]
    simp
  have hargument : c.get .argument = Int32.ofNat t := by
    rw [← hc]
    simp
  exact (writeLoop_runs lo hi hp (hm.kept hck) (htext.of_memory hcm) hargument).imp
    fun m' h => .after_quiet hck hco h

end

/-! ### The trap -/

/-- **The trap writes its message** and stops at the instruction behind it. -/
theorem divisionTrap_runs {L : Layout} (hp : Placed L.image a Fragment.divisionTrap)
    (hb : ∀ x, a ≤ x → ¬ L.boundary x) {s : Nat} (hs : m.get .stack = Int32.ofNat s)
    (hlo : L.stack ≤ s) (hhi : s ≤ L.top) :
    Reaches L 0 (fun m' => L.image.code[m'.pc]? = some (some .ebreak) ∧ L.Balanced m' ∧
      m'.output = m.output ++ Fragment.trapMessage.toUTF8) (m.goTo a) := by
  unfold Fragment.divisionTrap at hp
  rw [List.cons_append] at hp
  obtain ⟨-, hp⟩ := hp
  rw [placed_append] at hp
  obtain ⟨hbytes, hend⟩ := hp
  refine (writeBytes_runs (G := L) 0 0 hbytes fun c hc h =>
    balanced_of_not_boundary (h.trans hs) hlo hhi (hb _ hc)).imp ?_
  rintro m' ⟨hpc, hk, ho⟩
  rw [size_writeBytes, ← hpc] at hend
  refine ⟨hend.1, ?_, ?_⟩
  · exact balanced_of_not_boundary (hk.stack.trans hs) hlo hhi (hb _ (by omega))
  · rw [ho, toByteArray_toList]

end TinyScript.Assembly
