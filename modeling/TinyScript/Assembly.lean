import TinyScript.Decimal.Integer

/-!
# Assembly listings

The language of a register machine whose memory consists of 32-bit words.  Instructions and data
share the memory; an instruction takes one word.

* `Instr`   one instruction
* `Line`    one line of a listing: a label, an instruction, words of data, or nothing
-/

namespace TinyScript.Assembly

def targetName : String := "riscv"

/-- A register as it stands in an instruction. -/
inductive Reg where
  /-- a register of the machine; the first of them always holds zero -/
  | numbered (n : Fin 32)
  /-- a name that the machine gives to none of its registers -/
  | named (name : String)
deriving DecidableEq, Repr

namespace Reg

def name : Reg → String
  | numbered n => "x" ++ Decimal.integer n.val
  | named name => name

def ofName (name : String) : Reg :=
  match (List.finRange 32).find? fun n => (numbered n).name == name with
  | some n => numbered n
  | none => named name

abbrev zero : Reg := numbered 0
/-- the address to which a routine returns -/
abbrev link : Reg := numbered 1
/-- the top of the stack of saved operands -/
abbrev stack : Reg := numbered 2
abbrev result : Reg := numbered 5
abbrev left : Reg := numbered 6
/-- an address, or a number of passing interest -/
abbrev address : Reg := numbered 7
abbrev quotient : Reg := numbered 8
abbrev digit : Reg := numbered 9
/-- the argument of a routine, or the byte that is written -/
abbrev argument : Reg := numbered 10
abbrev byte : Reg := numbered 11
abbrev cell : Reg := numbered 13

end Reg

inductive Alu where
  | add | sub | mul | div | rem
  | and | or
  | seq | sne | slt | sge
deriving DecidableEq, Repr

def Alu.mnemonic : Alu → String
  | .add => "add"
  | .sub => "sub"
  | .mul => "mul"
  | .div => "div"
  | .rem => "rem"
  | .and => "and"
  | .or => "or"
  | .seq => "seq"
  | .sne => "sne"
  | .slt => "slt"
  | .sge => "sge"

inductive Test where
  | eq | ne | lt
deriving DecidableEq, Repr

def Test.mnemonic : Test → String
  | .eq => "beq"
  | .ne => "bne"
  | .lt => "blt"

inductive Instr where
  | li (rd : Reg) (n : Int32)
  | la (rd : Reg) (label : String)
  | lw (rd base : Reg) (offset : Int32)
  | sw (base : Reg) (offset : Int32) (src : Reg)
  | addi (rd rs : Reg) (n : Int32)
  | alu (op : Alu) (rd a b : Reg)
  | branch (test : Test) (a b : Reg) (label : String)
  /-- a jump to a label, with the address behind the jump into a register -/
  | jal (rd : Reg) (label : String)
  | jalr (rd rs : Reg) (offset : Int32)
  /-- the lowest byte of a register to the output -/
  | ewrite (rs : Reg)
  | ebreak
deriving DecidableEq

def written (mnemonic : String) (operands : List String) : String :=
  mnemonic ++ " " ++ ", ".intercalate operands

def number (n : Int32) : String := Decimal.integer n.toInt

def Instr.text : Instr → String
  | .li rd n => written "li" [rd.name, number n]
  | .la rd label => written "li" [rd.name, label]
  | .lw rd base offset => written "lw" [rd.name, base.name, number offset]
  | .sw base offset src => written "sw" [base.name, number offset, src.name]
  | .addi rd rs n => written "addi" [rd.name, rs.name, number n]
  | .alu op rd a b => written op.mnemonic [rd.name, a.name, b.name]
  | .branch test a b label => written test.mnemonic [a.name, b.name, label]
  | .jal rd label => written "jal" [rd.name, label]
  | .jalr rd rs offset => written "jalr" [rd.name, rs.name, number offset]
  | .ewrite rs => written "ewrite" [rs.name]
  | .ebreak => "ebreak"

inductive Line where
  /-- a name for the address of what follows -/
  | label (name : String)
  | instr (i : Instr)
  /-- so many words that all hold the same value -/
  | data (value : Int32) (count : Nat)
  | blank
deriving DecidableEq

def Line.text : Line → String
  | .label name => name ++ ":"
  | .instr i => i.text
  | .data value count => "data " ++ number value ++ " * " ++ Decimal.integer count
  | .blank => ""

def code (is : List Instr) : List Line := is.map .instr

/-- the words that a line takes in memory -/
def Line.size : Line → Nat
  | .instr _ => 1
  | .data _ count => count
  | .label _ | .blank => 0

/-- the labels that the lines define, in order -/
def labels : List Line → List String
  | [] => []
  | .label name :: lines => name :: labels lines
  | _ :: lines => labels lines

end TinyScript.Assembly
