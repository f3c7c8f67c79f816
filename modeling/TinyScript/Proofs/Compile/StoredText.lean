import TinyScript.Proofs.Compile.Listing
import TinyScript.Program.Parse

/-!
# Texts that are read back from the pool

The code that prints a text variable walks along the words that the variable points to and stops at the
first zero.  It works in every state of the machine in which the variable points to a text of the pool, also
in those that no run of the program comes to.

* `PointsToText`                 the word of a variable holds the address of a text of the listing
* `text_read_to_first_zero`      what is written is the text up to its first zero
* `machineAt`                    a machine in which nothing is set but one variable
* `zero_ends_text`               a text with a zero is cut there, while the run of the program writes all of it
-/

namespace TinyScript

open Assembly Machine

namespace Assembly

/-! ### Runs from any state -/

theorem Reaches.exists_run {G : Guard} {n : Nat} {Q : Machine → Prop} {m : Machine}
    (h : Reaches G n Q m) : ∃ k m', run G.image k m = .running m' ∧ Q m' := by
  obtain ⟨k, m', -, ht, hq⟩ := h
  exact ⟨k, m', ht.run, hq⟩

/-! ### Texts of a listing -/

/-- The word of a slot holds the address of a text, and from this address on the memory is as it was
loaded, up to the zero behind so many bytes.  All other words and registers may hold anything. -/
structure PointsToText (image : Image) (slot label : String) (length : Nat) (m : Machine) : Prop where
  zero : m.get .zero = 0
  size : m.memory.size = image.words.size
  word : ∃ v t, image.address? slot = some v ∧ image.address? label = some t ∧
    m.memory[v]? = some (Int32.ofNat t) ∧
    ∀ j ≤ length, m.memory[t + j]? = image.words[t + j]?

/-- the bytes in front of the first zero are all bytes if there is no zero -/
theorem takeWhile_toUTF8_iff {s : String} :
    (s.toUTF8.toList.takeWhile (· ≠ 0)).toByteArray = s.toUTF8 ↔ '\x00' ∉ s.toList := by
  rw [← zero_mem_toUTF8_iff]
  constructor
  · intro hall hzero
    have hlist := congrArg ByteArray.toList hall
    rw [toList_toByteArray, List.takeWhile_eq_self_iff] at hlist
    exact absurd rfl (of_decide_eq_true (hlist 0 hzero))
  · intro hzero
    have hlist : s.toUTF8.toList.takeWhile (· ≠ 0) = s.toUTF8.toList := by
      rw [List.takeWhile_eq_self_iff]
      intro b hb
      exact decide_eq_true fun he => hzero (he ▸ hb)
    rw [hlist, toByteArray_toList]

section

variable {image : Image} {a : Nat} {m : Machine} {bytes : List UInt8}

theorem textVariable_written {slot label loopLabel endLabel : String} {t : Nat}
    (hp : Placed image a (Fragment.writeTextVar slot loopLabel endLabel))
    (ht : Placed image t (Fragment.literal label bytes)) (hpos : 0 < t)
    (hsize : image.words.size ≤ addressLimit) (hm : PointsToText image slot label bytes.length m)
    (hpc : m.pc = a) :
    ∃ k m', run image k m = .running m' ∧
      Prints 0 0 (a + 11) (bytes.takeWhile (· ≠ 0)) m m' := by
  obtain ⟨v, t', hv, ht', hword, hmemory⟩ := hm.word
  obtain rfl : t' = t := Option.some.inj (ht'.symm.trans ht.1)
  have hreader : (Guard.free image).Reader m := ⟨hm.zero, hm.size ▸ hsize, fun _ _ => trivial⟩
  subst hpc
  exact (writeTextVar_runs (G := .free image) 0 0 hp hv hreader hpos hword
    (Layout.holdsText_of_placed ht hmemory)).exists_run

theorem literal_written (hp : Placed image a (bytes.flatMap Fragment.writeByte)) (hpc : m.pc = a) :
    ∃ k m', run image k m = .running m' ∧ Prints 0 0 (a + 2 * bytes.length) bytes m m' := by
  subst hpc
  exact (writeBytes_runs (G := .free image) 0 0 hp fun _ _ _ => trivial).exists_run

end

end Assembly

/-- **A text is read back up to its first zero.**  Take the code of a listing that prints a variable, and a
machine at its start in which the variable points to a text that the program assigns to it.  The machine
gets to the end of the code, has written the bytes of the text in front of the first zero, and has changed
no word.  So all of the text is written if and only if no character of it is zero; the code that prints the
text as a literal writes all of it in any case. -/
theorem text_read_to_first_zero {p : Program} {lines : List Line} (h : p.compile = .ok lines)
    (hsize : size lines < 2 ^ 31) {name text label : String}
    (hlabel : p.plan.labelFor name text = .ok label) :
    (∀ before after loopLabel endLabel m,
      lines = before ++ Fragment.writeTextVar (Plan.slotLabel name) loopLabel endLabel ++ after →
      PointsToText (Image.ofLines lines) (Plan.slotLabel name) label text.toUTF8.toList.length m →
      m.pc = size before →
      ∃ k m', run (Image.ofLines lines) k m = .running m' ∧
        (Image.ofLines lines).address? endLabel = some m'.pc ∧ m'.memory = m.memory ∧
        m'.output = m.output ++ (text.toUTF8.toList.takeWhile (· ≠ 0)).toByteArray ∧
        (m'.output = m.output ++ text.toUTF8 ↔ '\x00' ∉ text.toList)) ∧
    ∀ before after m,
      lines = before ++ text.toUTF8.toList.flatMap Fragment.writeByte ++ after →
      m.pc = size before →
      ∃ k m', run (Image.ofLines lines) k m = .running m' ∧
        m'.pc = m.pc + 2 * text.toUTF8.toList.length ∧ m'.output = m.output ++ text.toUTF8 := by
  have hnodup := Plan.nodup_labels_listing (Plan.regular_plan p) h
  obtain ⟨e, he, rfl⟩ := Plan.labelFor_ok hlabel
  have hplaced {before code after : List Line} (hlines : lines = before ++ code ++ after) :
      Placed (Image.ofLines lines) (size before) code := by
    have hp := placed_ofLines hnodup
    rw [hlines, placed_append, placed_append, Nat.zero_add] at hp
    rw [hlines]
    exact hp.1.2
  have hwords : (Image.ofLines lines).words.size ≤ addressLimit := by
    rw [Image.size_words]
    exact Nat.le_of_lt hsize
  refine ⟨fun before after loopLabel endLabel m hlines hm hpc => ?_,
    fun before after m hlines hpc => ?_⟩
  · obtain ⟨L, hL⟩ := opens_of_compile h hsize
    obtain ⟨t, ht, -⟩ := hL.loaded.textAt (hL.plan ▸ Pool.mem_of_entry? he)
    have hstored := ht.placed
    rw [hL.image, Pool.bytes_of_entry? he] at hstored
    have hcode := hplaced hlines
    obtain ⟨k, m', hk, hprints⟩ := textVariable_written hcode hstored ht.pos hwords hm hpc
    refine ⟨k, m', hk, ?_, hprints.memory_eq, hprints.output, ?_⟩
    · rw [hprints.pc]
      exact hcode.address (k := 11) (.tail _ (.head _))
    · rw [hprints.output, ByteArray.append_right_inj]
      exact takeWhile_toUTF8_iff
  · obtain ⟨k, m', hk, hprints⟩ := literal_written (hplaced hlines) hpc
    exact ⟨k, m', hk, by rw [hprints.pc, hpc], by rw [hprints.output, toByteArray_toList]⟩

/-! ### Two texts -/

/-- a machine at a word of a listing, in which nothing is set but the word of one variable -/
def machineAt (lines : List Line) (pc slot text : Nat) : Machine where
  pc := pc
  registers := Vector.replicate 32 0
  memory := (Image.ofLines lines).words.setIfInBounds slot (Int32.ofNat text)
  output := .empty

/-- a program that prints a text with a letter of two bytes, from a variable and as a literal -/
def accents : Program := [.assign "s" (.text "aé"), .print (.var "s"), .print (.text "aé")]

def accentsListing : List Line := accents.compile.toOption.getD []

theorem pointsToText_accents :
    PointsToText (Image.ofLines accentsListing) (Plan.slotLabel "s") "str0" "aé".toUTF8.toList.length
      (machineAt accentsListing (size (accentsListing.take 5)) 147 139) where
  zero := by decide +kernel
  size := by decide +kernel
  word := ⟨147, 139, by decide +kernel, by decide +kernel, by decide +kernel, by decide +kernel⟩

theorem text_read_to_first_zero_accents :
    accents.compile = .ok accentsListing ∧ size accentsListing < 2 ^ 31 ∧
    accents.plan.labelFor "s" "aé" = .ok "str0" ∧
    (∃ k m', run (Image.ofLines accentsListing) k
        (machineAt accentsListing (size (accentsListing.take 5)) 147 139) = .running m' ∧
      (Image.ofLines accentsListing).address? "L3" = some m'.pc ∧ m'.output = "aé".toUTF8) ∧
    ∃ k m', run (Image.ofLines accentsListing) k
        (machineAt accentsListing (size (accentsListing.take 20)) 147 139) = .running m' ∧
      m'.output = "aé".toUTF8 := by
  have hcompile : accents.compile = .ok accentsListing := rfl
  have hsize : size accentsListing < 2 ^ 31 := by decide +kernel
  have hlabel : accents.plan.labelFor "s" "aé" = .ok "str0" := rfl
  obtain ⟨hvariable, hliteral⟩ := text_read_to_first_zero hcompile hsize hlabel
  refine ⟨hcompile, hsize, hlabel, ?_, ?_⟩
  · have hlines : accentsListing = accentsListing.take 5 ++
        Fragment.writeTextVar (Plan.slotLabel "s") "L2" "L3" ++ accentsListing.drop 18 := by
      decide +kernel
    obtain ⟨k, m', hk, hend, -, -, hall⟩ :=
      hvariable _ _ _ _ _ hlines pointsToText_accents rfl
    exact ⟨k, m', hk, hend, hall.2 (by decide +kernel)⟩
  · have hlines : accentsListing = accentsListing.take 20 ++
        "aé".toUTF8.toList.flatMap Fragment.writeByte ++ accentsListing.drop 26 := by
      decide +kernel
    obtain ⟨k, m', hk, -, hall⟩ :=
      hliteral _ _ (machineAt accentsListing (size (accentsListing.take 20)) 147 139) hlines rfl
    exact ⟨k, m', hk, hall⟩

/-- a program that prints a text with a zero in it, from a variable -/
def nulText : Program := [.assign "s" (.text "a\x00b"), .print (.var "s")]

def nulListing : List Line := nulText.compile.toOption.getD []

theorem pointsToText_nulListing :
    PointsToText (Image.ofLines nulListing) (Plan.slotLabel "s") "str0" "a\x00b".toUTF8.toList.length
      (machineAt nulListing (size (nulListing.take 5)) 135 131) where
  zero := by decide +kernel
  size := by decide +kernel
  word := ⟨135, 131, by decide +kernel, by decide +kernel, by decide +kernel, by decide +kernel⟩

/-- The program of a source text has a text with a zero behind its first letter.  The code that prints the
variable of the text writes the letter alone, and the listing as a whole does not print what the run of the
program does. -/
theorem zero_ends_text :
    Program.ofSource "s = \"a\x00b\"; print(s);" = .ok nulText ∧
    nulText.compile = .ok nulListing ∧ nulText.plan.labelFor "s" "a\x00b" = .ok "str0" ∧
    (∃ before after m k m', nulListing =
        before ++ Fragment.writeTextVar (Plan.slotLabel "s") "L1" "L2" ++ after ∧
      PointsToText (Image.ofLines nulListing) (Plan.slotLabel "s") "str0"
        "a\x00b".toUTF8.toList.length m ∧
      m.pc = size before ∧ run (Image.ofLines nulListing) k m = .running m' ∧
      (Image.ofLines nulListing).address? "L2" = some m'.pc ∧
      m'.output = m.output ++ "a".toUTF8) ∧
    (∃ o, (nulText.start .empty {}).advance 3 = .ended o ∧ o.failure = none ∧
      o.sink.written = "a\x00b\n".toUTF8) ∧
    ∃ m k m', Machine.start? (Image.ofLines nulListing) Fragment.entryLabel = some m ∧
      run (Image.ofLines nulListing) k m = .halted m' ∧ m'.output = "a\n".toUTF8 := by
  have hcompile : nulText.compile = .ok nulListing := rfl
  have hplaced := placed_ofLines (Plan.nodup_labels_listing (Plan.regular_plan _) hcompile)
  have hlines : nulListing = nulListing.take 5 ++
      Fragment.writeTextVar (Plan.slotLabel "s") "L1" "L2" ++ nulListing.drop 18 := by
    decide +kernel
  rw [hlines, placed_append, placed_append, Nat.zero_add, ← hlines] at hplaced
  have hcode := hplaced.1.2
  refine ⟨by decide +kernel, hcompile, rfl, ?_, ⟨_, rfl, rfl, by decide +kernel⟩, ?_⟩
  · obtain ⟨L, hL⟩ := opens_of_compile hcompile (by decide +kernel)
    obtain ⟨e, he, hlabel⟩ :=
      Plan.labelFor_ok (show nulText.plan.labelFor "s" "a\x00b" = .ok "str0" from rfl)
    obtain ⟨t, ht, -⟩ := hL.loaded.textAt (hL.plan ▸ Pool.mem_of_entry? he)
    have hstored := ht.placed
    rw [hL.image, Pool.bytes_of_entry? he, hlabel] at hstored
    obtain ⟨k, m', hk, hprints⟩ := textVariable_written hcode hstored ht.pos (by decide +kernel)
      pointsToText_nulListing rfl
    refine ⟨_, _, _, k, m', hlines, pointsToText_nulListing, rfl, hk, ?_, ?_⟩
    · rw [hprints.pc]
      exact hcode.address (k := 11) (.tail _ (.head _))
    · have hletter : ("a\x00b".toUTF8.toList.takeWhile (· ≠ 0)).toByteArray = "a".toUTF8 := by
        decide +kernel
      rw [hprints.output, hletter]
  · have hfinal : (run (Image.ofLines nulListing) 20 (Image.ofLines nulListing).initial).final? =
        some "a\n".toUTF8 := by decide +kernel
    obtain ⟨m', hm', houtput⟩ := Step.halted_of_final? hfinal
    exact ⟨_, 20, m', rfl, hm', houtput⟩

end TinyScript
