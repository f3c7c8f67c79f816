import TinyScript.Proofs.Compile.Cases

/-!
# A listing names registers of the machine only

* `Assembly.Numbered`         all registers of some lines are registers of the machine
* `Plan.numbered_listing`     a listing has no others
-/

namespace TinyScript

namespace Assembly

def Reg.isNumbered : Reg → Bool
  | numbered _ => true
  | named _ => false

/-- the registers that an instruction names -/
def Instr.registers : Instr → List Reg
  | .li rd _ | .la rd _ | .jal rd _ => [rd]
  | .lw a b _ | .sw a _ b | .addi a b _ | .branch _ a b _ | .jalr a b _ => [a, b]
  | .alu _ rd a b => [rd, a, b]
  | .ewrite rs => [rs]
  | .ebreak => []

def Line.isNumbered : Line → Bool
  | .instr i => i.registers.all Reg.isNumbered
  | .label _ | .data .. | .blank => true

def Numbered (code : List Line) : Prop := code.all Line.isNumbered = true

theorem Numbered.append {first second : List Line} (hf : Numbered first) (hs : Numbered second) :
    Numbered (first ++ second) := by
  unfold Numbered at *
  rw [List.all_append, hf, hs]
  rfl

theorem Numbered.flatMap {α : Type} {f : α → List Line} (h : ∀ a, Numbered (f a)) (as : List α) :
    Numbered (as.flatMap f) := by
  induction as with
  | nil => rfl
  | cons a as ih =>
    rw [List.flatMap_cons]
    exact (h a).append ih

theorem Numbered.label_cons {code : List Line} (h : Numbered code) (name : String) :
    Numbered (.label name :: code) := h

theorem Numbered.blank_cons {code : List Line} (h : Numbered code) : Numbered (.blank :: code) := h

theorem Numbered.of_mem {code : List Line} (h : Numbered code) {i : Instr}
    (hi : .instr i ∈ code) : ∀ r ∈ i.registers, ∃ n, r = .numbered n := by
  intro r hr
  have hline : i.registers.all Reg.isNumbered = true := List.all_eq_true.mp h _ hi
  have hreg := List.all_eq_true.mp hline r hr
  cases r with
  | numbered n => exact ⟨n, rfl⟩
  | named name => cases hreg

end Assembly

open Assembly

namespace Plan

variable {plan : Plan} {n : Nat} {code : List Line}

theorem numbered_valueCode {e : Expr} (h : plan.valueCode e = .ok code) : Numbered code := by
  induction e generalizing code with
  | int k =>
    rw [← Except.ok.inj h]
    rfl
  | float x => cases h
  | text s => cases h
  | var name =>
    obtain ⟨-, -, rfl⟩ := valueCode_var_ok h
    rfl
  | group e ih => exact ih h
  | binary op left right ihl ihr =>
    obtain ⟨first, second, hfirst, hsecond, rfl⟩ := valueCode_binary_ok h
    have hsave : Numbered Fragment.save := rfl
    have hrestore : Numbered Fragment.restoreLeft := rfl
    have hcombine : Numbered (Fragment.combine op) := by cases op <;> rfl
    exact ((((ihl hfirst).append hsave).append (ihr hsecond)).append hrestore).append hcombine
  | not e ih =>
    obtain ⟨first, hfirst, rfl⟩ := valueCode_not_ok h
    exact (ih hfirst).append rfl
  | round e => cases h

theorem numbered_assignCode {name : String} {value : Expr}
    (h : plan.assignCode name value = .ok code) : Numbered code := by
  obtain ⟨-, ⟨text, e, -, -, rfl⟩ | ⟨-, -, first, hfirst, rfl⟩⟩ := assignCode_ok h
  · rfl
  · exact (numbered_valueCode hfirst).append rfl

theorem numbered_writeBytes (bytes : List UInt8) :
    Numbered (bytes.flatMap Fragment.writeByte) := by
  have hbyte (b : UInt8) : Numbered (Fragment.writeByte b) := rfl
  exact .flatMap hbyte bytes

theorem numbered_printCode {value : Expr} (h : plan.printCode n value = .ok code) :
    Numbered code := by
  obtain ⟨text, -, rfl⟩ | ⟨name, -, -, -, rfl⟩ | ⟨-, -, first, hfirst, rfl⟩ := printCode_ok h
  · exact numbered_writeBytes _
  · rfl
  · exact (numbered_valueCode hfirst).append rfl

mutual

theorem numbered_stmtCode {n : Nat} {code : List Line} : (s : Stmt) →
    plan.stmtCode n s = .ok code → Numbered code
  | .assign name value => fun h => numbered_assignCode h
  | .print value => fun h => by
    obtain ⟨first, hfirst, rfl⟩ := stmtCode_print_ok h
    exact (numbered_printCode hfirst).append rfl
  | .ite condition body none => fun h => by
    obtain ⟨test, first, htest, hfirst, rfl⟩ := stmtCode_ite_none_ok h
    have hbranch : Numbered (Fragment.branchIfFalse .result (controlLabel n)) := rfl
    have hjump : Numbered (Fragment.jump (controlLabel (n + 1))) := rfl
    exact ((((numbered_valueCode htest).append hbranch).append
      (numbered_blockCode body hfirst)).append hjump).append rfl
  | .ite condition body (some other) => fun h => by
    obtain ⟨test, first, second, htest, hfirst, hsecond, rfl⟩ := stmtCode_ite_some_ok h
    have hbranch : Numbered (Fragment.branchIfFalse .result (controlLabel n)) := rfl
    have hjump : Numbered (Fragment.jump (controlLabel (n + 1))) := rfl
    have hother := (numbered_blockCode other hsecond).label_cons (controlLabel n)
    exact (((((numbered_valueCode htest).append hbranch).append
      (numbered_blockCode body hfirst)).append hjump).append hother).append rfl
  | .while condition body => fun h => by
    obtain ⟨test, loop, htest, hloop, rfl⟩ := stmtCode_while_ok h
    have hhead := (numbered_valueCode htest).label_cons (controlLabel n)
    have hbranch : Numbered (Fragment.branchIfFalse .result (controlLabel (n + 1))) := rfl
    have hjump : Numbered (Fragment.jump (controlLabel n)) := rfl
    exact (((hhead.append hbranch).append (numbered_blockCode body hloop)).append hjump).append rfl
  | .block body => fun h => numbered_blockCode body h

theorem numbered_blockCode {n : Nat} {code : List Line} : (b : Block) →
    plan.blockCode n b = .ok code → Numbered code
  | [] => fun h => by
    rw [← Except.ok.inj h]
    rfl
  | s :: ss => fun h => by
    obtain ⟨first, rest, hfirst, hrest, rfl⟩ := blockCode_cons_ok h
    exact (numbered_stmtCode s hfirst).append (numbered_blockCode ss hrest)

end

theorem numbered_literal (e : PoolEntry) :
    Numbered (Fragment.literal e.label e.bytes.toList ++ [.blank]) := by
  have hbytes : Numbered (e.bytes.toList.map fun b => .data (Int32.ofNat b.toNat) 1) := by
    rw [Numbered, List.all_map]
    exact List.all_eq_true.mpr fun _ _ => rfl
  have hend : Numbered [.data 0 1] := rfl
  exact ((hbytes.append hend).label_cons e.label).append rfl

theorem numbered_supplement (plan : Plan) (stackWords : Nat) :
    Numbered (plan.supplement stackWords) := by
  have hprint : Numbered (.blank :: Fragment.printInt) := rfl
  have htrap : Numbered (.blank :: Fragment.divisionTrap) := by
    have hmessage := numbered_writeBytes Fragment.trapMessage.toUTF8.toList
    have hend : Numbered (code [.ebreak]) := rfl
    exact ((hmessage.label_cons Fragment.trapLabel).append hend).blank_cons
  have hpool := (Numbered.flatMap numbered_literal plan.pool.entries).blank_cons
  have hslot (name : String) : Numbered (Fragment.variableSlot (slotLabel name)) := rfl
  have hgap : Numbered (if plan.storage.isEmpty then [] else [.blank]) := by
    split <;> rfl
  exact ((((hprint.append htrap).append hpool).append (.flatMap hslot plan.names)).append
    hgap).append rfl

theorem numbered_listing {p : Program} {lines : List Line} (h : plan.listing p = .ok lines) :
    Numbered lines := by
  obtain ⟨statements, hs, rfl⟩ := listing_ok h
  have hstart : Numbered Fragment.programStart := rfl
  have hend : Numbered Fragment.programEnd := rfl
  exact ((hstart.append (numbered_blockCode p hs)).append hend).append (numbered_supplement plan _)

end Plan

end TinyScript
