import TinyScript.Assembly

/-!
# The machine

What a listing does when it is loaded and run.

* `Image.ofLines`   a listing in memory: one word for an instruction, as many as it says for data; a
                    label is the address of what follows it
* `Machine.step`    one instruction
* `Machine.run`     at most so many instructions

The machine stops at `ebreak`.  It is stuck where it finds no instruction, an unknown label or an
address outside of the memory.
-/

namespace TinyScript.Assembly

/-- a listing in memory; a word that holds an instruction reads as zero -/
structure Image where
  code : Array (Option Instr)
  words : Array Int32
  addresses : List (String × Nat)

namespace Image

def codeOf : Line → List (Option Instr)
  | .instr i => [some i]
  | .data _ count => List.replicate count none
  | .label _ | .blank => []

def wordsOf : Line → List Int32
  | .instr _ => [0]
  | .data value count => List.replicate count value
  | .label _ | .blank => []

/-- the addresses of the labels in lines that start at an address -/
def addressesOf : (start : Nat) → List Line → List (String × Nat)
  | _, [] => []
  | start, .label name :: lines => (name, start) :: addressesOf start lines
  | start, line :: lines => addressesOf (start + line.size) lines

def ofLines (lines : List Line) : Image where
  code := (lines.flatMap codeOf).toArray
  words := (lines.flatMap wordsOf).toArray
  addresses := addressesOf 0 lines

def address? (image : Image) (label : String) : Option Nat := image.addresses.lookup label

theorem length_codeOf (line : Line) : (codeOf line).length = line.size := by
  cases line <;> simp [codeOf, Line.size]

theorem length_wordsOf (line : Line) : (wordsOf line).length = line.size := by
  cases line <;> simp [wordsOf, Line.size]

end Image

structure Machine where
  pc : Nat
  registers : Vector Int32 32
  memory : Array Int32
  output : ByteArray

namespace Machine

def start? (image : Image) (entry : String) : Option Machine :=
  (image.address? entry).map fun pc => ⟨pc, Vector.replicate 32 0, image.words, .empty⟩

/-- A register that the machine does not have reads as zero. -/
def get (m : Machine) : Reg → Int32
  | .numbered n => m.registers.get n
  | .named _ => 0

/-- The first register keeps its zero, and one that the machine does not have keeps nothing. -/
def set (m : Machine) (r : Reg) (value : Int32) : Machine :=
  match r with
  | .numbered n =>
    if n.val = 0 then m else { m with registers := m.registers.set n.val value n.isLt }
  | .named _ => m

def next (m : Machine) : Machine := { m with pc := m.pc + 1 }

/-- the address of a word: the content of a register and an offset -/
def addressAt? (m : Machine) (base : Reg) (offset : Int32) : Option Nat :=
  let a := (m.get base).toInt + offset.toInt
  if 0 ≤ a ∧ a < m.memory.size then some a.toNat else none

def ofBool (b : Bool) : Int32 := if b then 1 else 0

def compute (op : Alu) (a b : Int32) : Int32 :=
  match op with
  | .add => a + b
  | .sub => a - b
  | .mul => a * b
  | .div => a / b
  | .rem => a % b
  | .and => a &&& b
  | .or => a ||| b
  | .seq => ofBool (a == b)
  | .sne => ofBool (a != b)
  | .slt => ofBool (a < b)
  | .sge => ofBool (b ≤ a)

def holds (test : Test) (a b : Int32) : Bool :=
  match test with
  | .eq => a == b
  | .ne => a != b
  | .lt => a < b

def lowByte (n : Int32) : UInt8 := UInt8.ofInt n.toInt

inductive Step where
  | running (m : Machine)
  | halted (m : Machine)
  | stuck

def goOn (m : Option Machine) : Step := m.elim .stuck .running

def jumpTo (m : Machine) (image : Image) (label : String) : Option Machine :=
  (image.address? label).map fun a => { m with pc := a }

def perform (image : Image) (m : Machine) : Instr → Step
  | .li rd n => .running (m.set rd n).next
  | .la rd label => goOn ((image.address? label).map fun a => (m.set rd (Int32.ofNat a)).next)
  | .lw rd base offset =>
    goOn do
      let a ← m.addressAt? base offset
      return (m.set rd (← m.memory[a]?)).next
  | .sw base offset src =>
    goOn do
      let a ← m.addressAt? base offset
      return next { m with memory := m.memory.setIfInBounds a (m.get src) }
  | .addi rd rs n => .running (m.set rd (m.get rs + n)).next
  | .alu op rd a b => .running (m.set rd (compute op (m.get a) (m.get b))).next
  | .branch test a b label =>
    if holds test (m.get a) (m.get b) then goOn (m.jumpTo image label) else .running m.next
  | .jal rd label => goOn ((m.set rd (Int32.ofNat (m.pc + 1))).jumpTo image label)
  | .jalr rd rs offset =>
    let target := ((m.get rs).toInt + offset.toInt).toNat
    .running { m.set rd (Int32.ofNat (m.pc + 1)) with pc := target }
  | .ewrite rs => .running (next { m with output := m.output.push (lowByte (m.get rs)) })
  | .ebreak => .halted m

def step (image : Image) (m : Machine) : Step :=
  match image.code[m.pc]? with
  | some (some i) => perform image m i
  | _ => .stuck

def run (image : Image) : (n : Nat) → Machine → Step
  | 0, m => .running m
  | n + 1, m =>
    match step image m with
    | .running m => run image n m
    | s => s

end Machine

end TinyScript.Assembly
