import TinyScript.Proofs.Compile.Listing
import TinyScript.Proofs.Decimal.Integer
import TinyScript.Proofs.Machine.PrintInt

/-!
# The routine that prints a number, from any state

Every listing has one routine that prints a number.  It is right in each state in which it can be entered,
also in those that no run of a program comes to: nothing is asked of the stack pointer, of the other
registers and of the words of memory.

* `HasPrintInt`                  the routine and its buffer lie in memory
* `EntersPrintInt`               a machine at the start of the routine, which knows where to return
* `hasPrintInt_of_compile`       every listing has the routine and the buffer
* `printInt_writes_decimal`      what the routine does
* `printInt_least`               the least number, which has no negative
-/

namespace TinyScript

open Assembly Machine

namespace Assembly

/-- the routine lies at `entry`, its buffer at `buffer`, and a register can hold every address -/
structure Image.HasPrintInt (image : Image) (entry buffer : Nat) : Prop where
  code : Placed image entry Fragment.printInt
  label : image.address? Fragment.bufferLabel = some buffer
  room : buffer + Fragment.bufferWords ≤ image.words.size
  limit : image.words.size ≤ addressLimit

/-- A machine that enters the routine with a number, to go on at an address.  All other registers and all
words of memory may hold anything. -/
structure Image.EntersPrintInt (image : Image) (entry back : Nat) (n : Int32) (m : Machine) : Prop where
  pc : m.pc = entry
  zero : m.get .zero = 0
  argument : m.get .argument = n
  link : m.get .link = Int32.ofNat back
  back : back < addressLimit
  size : m.memory.size = image.words.size

/-- if the next instruction is a store, it stores into a word from `lo` up to `hi` -/
def Image.StoresInto (image : Image) (lo hi : Nat) (m : Machine) : Prop :=
  ∀ base offset src, image.code[m.pc]? = some (some (.sw base offset src)) →
    ∃ x, m.addressAt? base offset = some x ∧ lo ≤ x ∧ x < hi

/-- only the words from `lo` up to `hi` may be written, and the stack pointer may be anywhere -/
@[reducible] def Guard.within (image : Image) (lo hi : Nat) : Guard :=
  ⟨image, fun x => lo ≤ x ∧ x < hi, fun _ => True⟩

theorem Guard.Safe.storesInto {image : Image} {lo hi : Nat} {m : Machine}
    (h : (Guard.within image lo hi).Safe m) : image.StoresInto lo hi m := by
  intro base offset src hi
  obtain ⟨i, hcode, hpermits⟩ := h.instruction
  obtain rfl : i = .sw base offset src := Option.some.inj (Option.some.inj (hcode.symm.trans hi))
  exact hpermits

section

variable {image : Image} {entry buffer back : Nat} {n : Int32} {m : Machine}

theorem Image.EntersPrintInt.scratch (hm : image.EntersPrintInt entry back n m)
    (h : image.HasPrintInt entry buffer) :
    (Guard.within image buffer (buffer + Fragment.bufferWords)).Scratch buffer m :=
  ⟨⟨hm.zero, hm.size ▸ h.limit, fun _ _ => trivial⟩, h.label, hm.size ▸ h.room, fun _ hlo hhi => ⟨hlo, hhi⟩⟩

theorem Image.EntersPrintInt.returns (hm : image.EntersPrintInt entry back n m)
    (h : image.HasPrintInt entry buffer) :
    ∃ k m', Takes (Guard.within image buffer (buffer + Fragment.bufferWords)) k m m' ∧ m'.pc = back ∧
      Returned buffer (Decimal.bytes n.toInt) m m' := by
  obtain ⟨k, m', -, ht, hm'⟩ := printInt_runs h.code (hm.scratch h)
  rw [← machine_at hm.pc] at ht
  refine ⟨k, m', ht, ?_, hm.argument ▸ hm'⟩
  rw [hm'.pc, hm.link, toInt_address hm.back]
  rfl

end

end Assembly

/-! ### The routine of a listing -/

theorem Opens.hasPrintInt {p : Program} {lines : List Line} {L : Layout} (h : Opens p lines L) :
    ∃ entry, L.image.HasPrintInt entry L.buffer := by
  obtain ⟨entry, hcode⟩ := h.loaded.printInt
  have hwords := h.loaded.words
  have hlimit := h.loaded.limit
  have htop : L.buffer + Fragment.bufferWords ≤ L.top := L.stack_le_top
  exact ⟨entry, hcode, h.loaded.buffer, by omega, by omega⟩

theorem hasPrintInt_of_compile {p : Program} {lines : List Line} (h : p.compile = .ok lines)
    (hsize : size lines < addressLimit) :
    ∃ entry buffer, (Image.ofLines lines).HasPrintInt entry buffer := by
  obtain ⟨L, hL⟩ := opens_of_compile h hsize
  obtain ⟨entry, hentry⟩ := hL.hasPrintInt
  exact ⟨entry, L.buffer, hL.image ▸ hentry⟩

/-- **The routine that prints a number.**  Every listing has it.  Wherever it lies, and whatever the state
is in which it is entered with a number, the machine comes to the address that it is to return to.  It has
then written the number as it is printed by a run: a minus sign if it is negative, and its digits without a
zero in front.  It has stored only into the words of the buffer, so all other words are as they were, and
so are the link register and the stack pointer. -/
theorem printInt_writes_decimal :
    (∀ p lines, Program.compile p = .ok lines → size lines < addressLimit →
      ∃ entry buffer, (Image.ofLines lines).HasPrintInt entry buffer) ∧
    ∀ image entry buffer back n m, Image.HasPrintInt image entry buffer →
      image.EntersPrintInt entry back n m →
      Decimal.IsDecimal n.toInt (Value.int n).printed.toList ∧
      ∃ k m', run image k m = .running m' ∧ m'.pc = back ∧
        m'.output = m.output ++ (Value.int n).printed.toUTF8 ∧
        m'.get .link = m.get .link ∧ m'.get .stack = m.get .stack ∧
        m'.memory.size = m.memory.size ∧
        (∀ x, x < buffer ∨ buffer + Fragment.bufferWords ≤ x → m'.memory[x]? = m.memory[x]?) ∧
        ∀ j < k, ∃ c, run image j m = .running c ∧
          image.StoresInto buffer (buffer + Fragment.bufferWords) c := by
  refine ⟨fun p lines => hasPrintInt_of_compile, fun image entry buffer back n m h hm => ⟨?_, ?_⟩⟩
  · show Decimal.IsDecimal n.toInt (String.ofList (Decimal.integerDigits n.toInt)).toList
    rw [String.toList_ofList]
    exact Decimal.isDecimal_integerDigits n.toInt
  obtain ⟨k, m', ht, hpc, hm'⟩ := hm.returns h
  refine ⟨k, m', ht.run, hpc, ?_, hm'.link, hm'.kept.stack, hm'.kept.size, hm'.kept.memory,
    fun j hj => ?_⟩
  · rw [hm'.output]
    exact congrArg (m.output ++ ·) (Decimal.integer_toUTF8 n.toInt).symm
  · obtain ⟨c, hc, hsafe⟩ := ht.safe_of_lt hj
    exact ⟨c, hc, hsafe.storesInto⟩

/-! ### The least number -/

def printsZero : Program := [.print (.int 0)]

def printsZeroListing : List Line := printsZero.compile.toOption.getD []

/-- the routine is entered with the least number, to go on behind the statement that prints -/
def enteredWithLeast : Machine :=
  let start := (Image.ofLines printsZeroListing).initial
  ((start.set .argument (-2147483648)).set .link 4).goTo 7

theorem printInt_least :
    printsZero.compile = .ok printsZeroListing ∧
    ∃ k m', run (Image.ofLines printsZeroListing) k enteredWithLeast = .running m' ∧ m'.pc = 4 ∧
      m'.output = "-2147483648".toUTF8 := by
  have hcompile : printsZero.compile = .ok printsZeroListing := rfl
  obtain ⟨hlisting, hroutine⟩ := printInt_writes_decimal
  obtain ⟨entry, buffer, h⟩ := hlisting _ _ hcompile (by decide +kernel)
  have haddress : (Image.ofLines printsZeroListing).address? Fragment.printIntLabel = some 7 := by
    decide +kernel
  obtain rfl : entry = 7 := Option.some.inj (h.code.1.symm.trans haddress)
  have hm : (Image.ofLines printsZeroListing).EntersPrintInt 7 4 (-2147483648) enteredWithLeast :=
    ⟨rfl, rfl, rfl, rfl, by decide, rfl⟩
  obtain ⟨-, k, m', hk, hpc, houtput, -⟩ := hroutine _ _ _ _ _ _ h hm
  refine ⟨hcompile, k, m', hk, hpc, ?_⟩
  rw [houtput]
  decide +kernel

end TinyScript
