import TinyScript.Proofs.Compile.Depth
import TinyScript.Proofs.Compile.Listing

/-!
# A compiled program never leaves its bounds

Whatever the program does, also where a division has no integer for its answer and where a text has a zero
character, the machine finds an instruction at every step, writes only to variables, the buffer and the
stack, and the stack pointer never leaves the stack.

* `Simulates.safe`              every state of a machine that follows a run is safe
* `Program.SafeState`           the same in terms of the labels of the listing
* `compiled_program_safe`       all states of the machine with the listing of a program are
-/

namespace TinyScript

open Assembly Machine Layout

namespace Assembly

variable {L : Layout} {m : Machine}

/-- the state after so many instructions, or the one that the machine stopped in before, is safe -/
def SafeAfter (L : Layout) (k : Nat) (m : Machine) : Prop :=
  ∃ x, (Machine.run L.image k m = .running x ∨ Machine.run L.image k m = .halted x) ∧ L.Safe x

theorem Takes.safeAfter {j k : Nat} {m' : Machine} (h : Takes L j m m')
    (hm : ∀ i, k = j + i → SafeAfter L i m') : SafeAfter L k m := by
  rcases Nat.lt_or_ge k j with hlt | hge
  · obtain ⟨x, hx, hs⟩ := h.safe_of_lt hlt
    exact ⟨x, .inl hx, hs⟩
  · obtain ⟨i, rfl⟩ := Nat.exists_eq_add_of_le hge
    obtain ⟨x, hx, hs⟩ := hm i rfl
    exact ⟨x, by rwa [h.run_add], hs⟩

theorem Halting.safeAfter {w : ByteArray} (h : Halting L w m) (k : Nat) : SafeAfter L k m := by
  have hs : L.Safe m := ⟨⟨.ebreak, h.stop, trivial⟩, h.balanced⟩
  cases k with
  | zero => exact ⟨m, .inl rfl, hs⟩
  | succ k =>
    refine ⟨m, .inr ?_, hs⟩
    unfold Machine.run Machine.step
    rw [h.stop]
    rfl

/-- **Every state of a machine that follows a run is safe.**  The induction is on the instructions that are
left and, where the next statement is a block and takes none, on what is left of the program. -/
theorem Simulates.safe (hL : L.Loaded) (hr : L.plan.Regular) {r : Run} (h : Simulates L r m)
    (k : Nat) : SafeAfter L k m := by
  induction k using Nat.strongRecOn generalizing r m with
  | ind k ih =>
    induction hw : r.weight using Nat.strongRecOn generalizing r m with
    | ind w ihw =>
      subst hw
      cases h.proceeds hL hr with
      | trap _ hm =>
        obtain ⟨j, m', -, ht, hm'⟩ := hm
        exact ht.safeAfter fun i _ => hm'.safeAfter i
      | finish _ _ hm =>
        obtain ⟨j, m', -, ht, hm'⟩ := hm
        exact ht.safeAfter fun i _ => hm'.safeAfter i
      | perform _ _ hm =>
        obtain ⟨j, m', hj, ht, hm'⟩ := hm
        exact ht.safeAfter fun i hi => ih i (by omega) hm'
      | @enter x _ _ hlt hm =>
        obtain ⟨j, m', -, ht, hm'⟩ := hm
        refine ht.safeAfter fun i hi => ?_
        rcases Nat.eq_zero_or_pos j with rfl | hj
        · obtain rfl : k = i := hi.trans (Nat.zero_add i)
          exact ihw x.weight hlt hm' rfl
        · exact ih i (by omega) hm'

end Assembly

/-! ### The whole program -/

/-- A word that may be written: the word of a variable, of the buffer or of the stack.  It lies behind all
code and all literals. -/
structure Program.Writable (p : Program) (image : Image) (buffer stack top a : Nat) : Prop where
  area : (∃ name ∈ p.plan.names, image.address? (Plan.slotLabel name) = some a) ∨
    (buffer ≤ a ∧ a < buffer + Fragment.bufferWords) ∨ (stack ≤ a ∧ a < top)
  code : ∀ x i, image.code[x]? = some (some i) → x < a
  literals : ∀ e ∈ p.plan.pool.entries, ∃ t, image.address? e.label = some t ∧
    t + e.bytes.toList.length < a

/-- A state in which the next instruction exists, loads from inside the memory and stores to a word that may
be written. -/
structure Program.SafeState (p : Program) (image : Image) (buffer stack top : Nat) (m : Machine) :
    Prop where
  instruction : ∃ i, image.code[m.pc]? = some (some i)
  load : ∀ rd base offset, image.code[m.pc]? = some (some (.lw rd base offset)) →
    ∃ a < image.words.size, m.addressAt? base offset = some a
  store : ∀ base offset src, image.code[m.pc]? = some (some (.sw base offset src)) →
    ∃ a < image.words.size, m.addressAt? base offset = some a ∧
      p.Writable image buffer stack top a

/-- the stack pointer is inside the stack, and at its top where a statement begins or ends -/
def Program.PointerInStack (p : Program) (stack top : Nat) (m : Machine) : Prop :=
  ∃ s, m.get .stack = Int32.ofNat s ∧ stack ≤ s ∧ s ≤ top ∧ (m.pc ∈ p.boundaries → s = top)

section

variable {p : Program} {lines : List Line} {L : Layout}

theorem Opens.writable (h : Opens p lines L) {a : Nat} (hlo : L.slots ≤ a) (hhi : a < L.top) :
    p.Writable L.image L.buffer L.stack L.top a := by
  refine ⟨?_, fun x i hi => Nat.lt_of_lt_of_le (h.code x i hi) hlo, fun e he => ?_⟩
  · rcases Nat.lt_or_ge a L.buffer with ha | ha
    · have hindex : a - L.slots < L.plan.names.length := by
        have hbuffer : L.buffer = L.slots + L.plan.names.length := rfl
        omega
      have hname := List.getElem_mem hindex
      refine .inl ⟨_, h.plan ▸ hname, (h.loaded.slot _ hname).trans (congrArg some ?_)⟩
      have hnodup : L.plan.names.Nodup := L.plan.storage.nodup_names
      show L.slots + L.plan.names.idxOf _ = a
      rw [hnodup.idxOf_getElem]
      omega
    · rcases Nat.lt_or_ge a L.stack with hs | hs
      · exact .inr (.inl ⟨ha, hs⟩)
      · exact .inr (.inr ⟨hs, hhi⟩)
  · obtain ⟨t, ht, haddress⟩ := h.loaded.textAt (h.plan ▸ he)
    exact ⟨t, haddress, Nat.lt_of_lt_of_le ht.below hlo⟩

theorem Opens.safeState (h : Opens p lines L) {m : Machine} (hm : L.Safe m)
    (hsize : m.memory.size = L.image.words.size) :
    p.SafeState L.image L.buffer L.stack L.top m ∧ p.PointerInStack L.stack L.top m := by
  obtain ⟨i, hi, hpermits⟩ := hm.instruction
  obtain ⟨s, hs, hlo, hhi, hb⟩ := hm.balanced
  have hinside {base : Reg} {offset : Int32} {a : Nat} (ha : m.addressAt? base offset = some a) :
      a < L.image.words.size := hsize ▸ lt_size_of_addressAt? ha
  refine ⟨⟨⟨i, hi⟩, fun rd base offset hlw => ?_, fun base offset src hsw => ?_⟩,
    s, hs, hlo, hhi, fun hx => hb ((h.boundary _).mpr hx)⟩
  · obtain rfl := Option.some.inj (Option.some.inj (hi.symm.trans hlw))
    obtain ⟨a, ha⟩ := hpermits
    exact ⟨a, hinside ha, ha⟩
  · obtain rfl := Option.some.inj (Option.some.inj (hi.symm.trans hsw))
    obtain ⟨a, ha, hlo, hhi⟩ := hpermits
    exact ⟨a, hinside ha, ha, h.writable hlo hhi⟩

theorem Opens.top_eq (h : Opens p lines L) : L.top = L.stack + max 1 p.depth := by
  show L.stack + L.stackWords = _
  rw [h.stackWords, Plan.stackWords, Plan.stackDepthBlock_eq p.plan]
  rfl

theorem Opens.safeState_initial (h : Opens p lines L) :
    p.SafeState L.image L.buffer L.stack L.top L.image.initial := by
  refine ⟨⟨_, h.opening⟩, fun rd base offset hlw => ?_, fun base offset src hsw => ?_⟩
  · cases h.opening.symm.trans hlw
  · cases h.opening.symm.trans hsw

end

/-- **A compiled program never leaves its bounds.**  After any number of instructions the machine that has
loaded the listing, in fewer than 2³¹ words, is at an instruction that loads from its memory and stores to
variables, the buffer or the stack only; and from the second instruction on the stack pointer is inside the
stack, and at its top between statements.  The stack has as many words as the deepest expression needs, and
no more operands than that are ever counted along the listing. -/
theorem compiled_program_safe {p : Program} {lines : List Line} (h : p.compile = .ok lines)
    (hsize : size lines < 2 ^ 31) :
    ∃ m buffer stack,
      Machine.start? (Image.ofLines lines) Fragment.entryLabel = some m ∧
      (Image.ofLines lines).address? Fragment.bufferLabel = some buffer ∧
      (Image.ofLines lines).address? Fragment.stackLabel = some stack ∧
      (Image.ofLines lines).address? Fragment.stackTopLabel = some (stack + max 1 p.depth) ∧
      peak 0 lines = p.depth ∧
      ∀ k, ∃ x, (Machine.run (Image.ofLines lines) k m = .running x ∨
          Machine.run (Image.ofLines lines) k m = .halted x) ∧
        p.SafeState (Image.ofLines lines) buffer stack (stack + max 1 p.depth) x ∧
        (0 < k → p.PointerInStack stack (stack + max 1 p.depth) x) := by
  obtain ⟨L, hL⟩ := opens_of_compile h hsize
  have htop := hL.top_eq
  have hloaded := hL.loaded
  rw [← hL.image]
  refine ⟨L.image.initial, L.buffer, L.stack, hL.image ▸ hL.start?, hloaded.buffer, hloaded.stack,
    htop ▸ hloaded.top, Plan.peak_listing h, fun k => ?_⟩
  rw [← htop]
  cases k with
  | zero => exact ⟨_, .inl rfl, hL.safeState_initial, fun hk => absurd hk (Nat.lt_irrefl 0)⟩
  | succ k =>
    obtain ⟨x, hx, hs⟩ := hL.simulates.safe hloaded hL.regular k
    have hrun := hL.run k
    rw [← hL.image] at hrun
    rw [← hrun] at hx
    have hmemory : x.memory.size = L.image.words.size := by
      rcases hx with hx | hx
      · exact (Continues.run hx).size
      · exact (Continues.halted hx).size
    obtain ⟨hstate, hpointer⟩ := hL.safeState hs hmemory
    exact ⟨x, hx, hstate, fun _ => hpointer⟩

/-- a text with a zero character, a division with a remainder inside of a loop, and an expression that needs
four words of the stack -/
def hazards : Program :=
  [.assign "s" (.text "a\x00b"), .assign "n" (.int 3),
    .while (.var "n")
      [.print (.var "s"),
        .assign "n" (.binary .sub (.var "n") (.binary .div (.int 3)
          (.binary .add (.int 1) (.group (.binary .mul (.var "n") (.int 1))))))]]

theorem compiled_program_safe_hazards :
    ∃ lines, hazards.compile = .ok lines ∧ size lines < 2 ^ 31 ∧ hazards.depth = 4 ∧
      ∃ m buffer stack,
        Machine.start? (Image.ofLines lines) Fragment.entryLabel = some m ∧
        (Image.ofLines lines).address? Fragment.bufferLabel = some buffer ∧
        (Image.ofLines lines).address? Fragment.stackLabel = some stack ∧
        (Image.ofLines lines).address? Fragment.stackTopLabel = some (stack + max 1 hazards.depth) ∧
        peak 0 lines = hazards.depth ∧
        ∀ k, ∃ x, (Machine.run (Image.ofLines lines) k m = .running x ∨
            Machine.run (Image.ofLines lines) k m = .halted x) ∧
          hazards.SafeState (Image.ofLines lines) buffer stack (stack + max 1 hazards.depth) x ∧
          (0 < k → hazards.PointerInStack stack (stack + max 1 hazards.depth) x) :=
  have h : hazards.compile = .ok _ := rfl
  have hsize : size _ < 2 ^ 31 := by decide +kernel
  ⟨_, h, hsize, by decide +kernel, compiled_program_safe h hsize⟩

end TinyScript
