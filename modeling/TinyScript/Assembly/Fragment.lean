import TinyScript.Assembly
import TinyScript.Operator

/-!
# Fragments of code

The lines for each elementary thing that a compiled program does, and the two routines that every
listing contains: `Fragment.printInt` prints a number in decimal, and `Fragment.divisionTrap`
reports a quotient that is no integer and stops.
-/

namespace TinyScript.Assembly.Fragment

open Instr Line

/-! ## Labels that every listing has -/

def entryLabel : String := "main"
def printIntLabel : String := "print_int"
def zeroLabel : String := "print_int_zero"
def negativeLabel : String := "print_int_neg"
def digitsLabel : String := "print_int_digits"
def collectLabel : String := "print_div_loop"
def replayLabel : String := "print_print_loop"
def trapLabel : String := "div_trap"
def bufferLabel : String := "buf"
def stackLabel : String := "stack"
def stackTopLabel : String := "stack_top"

/-! ## Statements and expressions -/

def programStart : List Line := [label entryLabel, instr (la .stack stackTopLabel)]

def programEnd : List Line := code [ebreak]

def loadInt (n : Int32) : List Line := code [li .result n]

def loadVar (slot : String) : List Line := code [la .address slot, lw .result .address 0]

def storeVar (slot : String) (src : Reg) : List Line := code [la .address slot, sw .address 0 src]

def storeAddress (slot target : String) : List Line :=
  code [la .address target, la .left slot, sw .left 0 .address]

def save : List Line := code [addi .stack .stack (-1), sw .stack 0 .result]

def restoreLeft : List Line := code [lw .left .stack 0, addi .stack .stack 1]

/-- the operation on the two operands when both are in their registers -/
def combine : Operator → List Line
  | .add => code [alu .add .result .left .result]
  | .sub => code [alu .sub .result .left .result]
  | .mul => code [alu .mul .result .left .result]
  | .div =>
    code [branch .eq .result .zero trapLabel,
      alu .rem .address .left .result,
      branch .ne .address .zero trapLabel,
      alu .div .result .left .result]
  | .eq => code [alu .seq .result .left .result]
  | .ne => code [alu .sne .result .left .result]
  | .lt => code [alu .slt .result .left .result]
  | .gt => code [alu .slt .result .result .left]
  | .ge => code [alu .sge .result .left .result]
  | .le => code [alu .sge .result .result .left]
  | .and =>
    code [alu .sne .left .left .zero, alu .sne .result .result .zero,
      alu .and .result .left .result]
  | .or =>
    code [alu .sne .left .left .zero, alu .sne .result .result .zero,
      alu .or .result .left .result]

def negate : List Line := code [alu .seq .result .result .zero]

def branchIfFalse (src : Reg) (target : String) : List Line :=
  code [branch .eq src .zero target]

def jump (target : String) : List Line := code [jal .zero target]

def writeByte (b : UInt8) : List Line :=
  code [li .argument (Int32.ofNat b.toNat), ewrite .argument]

/-- Writes the text whose address a variable holds, up to the zero behind it.  A variable that was
never assigned holds no address and is written as `0`. -/
def writeTextVar (slot loopLabel endLabel : String) : List Line :=
  code [la .left slot, lw .argument .left 0, branch .ne .argument .zero loopLabel,
    li .byte 48, ewrite .byte, jal .zero endLabel] ++
  label loopLabel ::
  code [lw .byte .argument 0, branch .eq .byte .zero endLabel, ewrite .byte,
    addi .argument .argument 1, jal .zero loopLabel] ++
  [label endLabel]

def callPrintInt (src : Reg) : List Line :=
  code [addi .argument src 0, jal .link printIntLabel]

/-! ## Routines -/

/-- Prints the argument in decimal.  The digits are taken from minus the magnitude, so the least
number needs no case of its own; they are collected in the buffer, the last one first.  What is left
of the number is in `result`, the count of its digits in `left`, and ten in `address`. -/
def printInt : List Line :=
  label printIntLabel ::
  code [branch .eq .argument .zero zeroLabel, alu .sub .result .zero .argument,
    branch .lt .argument .zero negativeLabel] ++
  label digitsLabel ::
  code [li .left 0, li .address 10] ++
  label collectLabel ::
  code [alu .div .quotient .result .address, alu .rem .digit .result .address,
    alu .sub .digit .zero .digit, addi .result .quotient 0,
    la .byte bufferLabel, alu .add .byte .byte .left, sw .byte 0 .digit,
    addi .left .left 1, branch .ne .result .zero collectLabel] ++
  label replayLabel ::
  code [addi .left .left (-1), li .byte 48,
    la .cell bufferLabel, alu .add .cell .cell .left, lw .digit .cell 0,
    alu .add .byte .byte .digit, ewrite .byte, branch .ne .left .zero replayLabel,
    jalr .zero .link 0] ++
  label zeroLabel ::
  code [li .byte 48, ewrite .byte, jalr .zero .link 0] ++
  label negativeLabel ::
  code [li .byte 45, ewrite .byte, addi .result .argument 0, jal .zero digitsLabel]

def trapMessage : String := "error: division result is not an integer\n"

def divisionTrap : List Line :=
  label trapLabel :: trapMessage.toUTF8.toList.flatMap writeByte ++ code [ebreak]

/-! ## Data -/

/-- the bytes of a text, one to a word, and a zero -/
def literal (name : String) (bytes : List UInt8) : List Line :=
  label name :: bytes.map (fun b => data (Int32.ofNat b.toNat) 1) ++ [data 0 1]

def variableSlot (slot : String) : List Line := [label slot, data 0 1]

/-- more words than the digits of any 32-bit number -/
def bufferWords : Nat := 12

def runtimeData (stackWords : Nat) : List Line :=
  [label bufferLabel, data 0 bufferWords, label stackLabel, data 0 stackWords,
    label stackTopLabel, data 0 1]

end TinyScript.Assembly.Fragment
