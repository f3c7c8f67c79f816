import Mathlib.Data.List.Nodup
import Mathlib.Data.List.TakeWhile
import TinyScript.Proofs.Compile.Closed
import TinyScript.Proofs.Compile.Registers
import TinyScript.Proofs.Decimal.Integer
import TinyScript.Proofs.Lexical.Words
import TinyScript.Proofs.Text.Spans

/-!
# The text of a line determines the line

Two instructions may be written alike: a jump to a label that is called like a register or a number says
something else than it seems to.  With registers of the machine and labels that are names this cannot
happen, and whoever reads the text of a line knows which line it is.

* `written_inj`            the first word and the operands are read off the text
* `Form`                   the instructions apart from their operands
* `Instr.text_injective`, `Line.text_injective`   plain instructions and lines are known by their texts
-/

namespace TinyScript

namespace Assembly

/-! ### Words and operands -/

/-- neither a blank nor a comma is in the text -/
def Solid (s : String) : Prop := ' ' ∉ s.toList ∧ ',' ∉ s.toList

theorem solid_number (n : Int32) : Solid (number n) := by
  rw [Solid, number, Decimal.integer, String.toList_ofList]
  exact ⟨Decimal.not_mem_integerDigits rfl (by decide) _, Decimal.not_mem_integerDigits rfl (by decide) _⟩

theorem solid_register (n : Fin 32) : Solid (Reg.numbered n).name := by
  revert n
  unfold Solid
  decide +kernel

theorem solid_of_isName {s : String} (h : Text.isName s = true) : Solid s := by
  have hletters := Text.isWordChar_of_isName h
  exact ⟨fun hm => absurd (hletters _ hm) (by decide), fun hm => absurd (hletters _ hm) (by decide)⟩

/-- what follows an operand if there are these after it -/
def following : List String → List Char
  | [] => []
  | s :: ss => ',' :: ' ' :: (", ".intercalate (s :: ss)).toList

theorem toList_intercalate_cons (s : String) (ss : List String) :
    (", ".intercalate (s :: ss)).toList = s.toList ++ following ss := by
  cases ss with
  | nil => rw [String.intercalate_singleton, following, List.append_nil]
  | cons t ts =>
    rw [String.intercalate_cons_of_ne_nil (List.cons_ne_nil t ts), String.toList_append,
      String.toList_append, List.append_assoc]
    rfl

theorem head_following (ss : List String) : ∀ c ∈ (following ss).head?, (c != ',') = false := by
  cases ss with
  | nil => exact fun _ h => nomatch h
  | cons s ss => exact fun _ h => Option.some.inj h ▸ rfl

theorem following_inj {ss ts : List String} (hs : ∀ s ∈ ss, Solid s) (ht : ∀ t ∈ ts, Solid t)
    (h : following ss = following ts) : ss = ts := by
  induction ss generalizing ts with
  | nil =>
    cases ts with
    | nil => rfl
    | cons t ts => cases h
  | cons s ss ih =>
    cases ts with
    | nil => cases h
    | cons t ts =>
      obtain ⟨hs₁, hss⟩ := List.forall_mem_cons.mp hs
      obtain ⟨ht₁, hts⟩ := List.forall_mem_cons.mp ht
      have htail := (List.cons.inj (List.cons.inj h).2).2
      rw [toList_intercalate_cons, toList_intercalate_cons] at htail
      obtain ⟨hfirst, hrest⟩ :=
        span_inj (bne_of_not_mem hs₁.2) (head_following ss) (bne_of_not_mem ht₁.2) (head_following ts)
          htail
      rw [String.toList_injective hfirst, ih hss hts hrest]

theorem toList_written (mnemonic : String) (ss : List String) :
    (written mnemonic ss).toList = mnemonic.toList ++ ' ' :: (", ".intercalate ss).toList := by
  rw [written, String.toList_append, String.toList_append, List.append_assoc]
  rfl

theorem head_blank (cs : List Char) : ∀ c ∈ (' ' :: cs).head?, (c != ' ') = false :=
  fun _ hc => Option.some.inj hc ▸ rfl

/-- The first word of a text and the operands behind it are read off the text. -/
theorem written_inj {m m' : String} {ss ts : List String} (hm : ' ' ∉ m.toList) (hm' : ' ' ∉ m'.toList)
    (hs : ∀ s ∈ ss, Solid s) (ht : ∀ t ∈ ts, Solid t) (hss : ss ≠ []) (hts : ts ≠ [])
    (h : written m ss = written m' ts) : m = m' ∧ ss = ts := by
  have hlist := congrArg String.toList h
  rw [toList_written, toList_written] at hlist
  obtain ⟨hfirst, hrest⟩ :=
    span_inj (bne_of_not_mem hm) (head_blank _) (bne_of_not_mem hm') (head_blank _) hlist
  refine ⟨String.toList_injective hfirst, following_inj hs ht ?_⟩
  obtain ⟨s, ss, rfl⟩ := List.exists_cons_of_ne_nil hss
  obtain ⟨t, ts, rfl⟩ := List.exists_cons_of_ne_nil hts
  exact congrArg (',' :: ·) hrest

/-! ### Instructions -/

/-- what an instruction does, apart from its operands -/
inductive Form where
  | move | load | store | addi
  | alu (op : Alu)
  | branch (test : Test)
  | jump | call | write | stop
deriving DecidableEq

namespace Form

def mnemonic : Form → String
  | move => "li"
  | load => "lw"
  | store => "sw"
  | addi => "addi"
  | alu op => op.mnemonic
  | branch test => test.mnemonic
  | jump => "jal"
  | call => "jalr"
  | write => "ewrite"
  | stop => "ebreak"

def all : List Form :=
  [move, load, store, addi, alu .add, alu .sub, alu .mul, alu .div, alu .rem, alu .and, alu .or,
    alu .seq, alu .sne, alu .slt, alu .sge, branch .eq, branch .ne, branch .lt, jump, call, write, stop]

theorem mem_all (f : Form) : f ∈ all := by
  cases f with
  | alu op => cases op <;> decide
  | branch test => cases test <;> decide
  | _ => decide

theorem mnemonic_injective : Function.Injective mnemonic := fun f g h =>
  List.inj_on_of_nodup_map (f := mnemonic) (l := all) (by decide) (mem_all f) (mem_all g) h

/-- a mnemonic is a word of its own, which is no label and none of the other first words of lines -/
theorem mnemonic_spec (f : Form) : ' ' ∉ f.mnemonic.toList ∧ ':' ∉ f.mnemonic.toList ∧
    f.mnemonic ≠ "data" ∧ f.mnemonic ≠ "" := by
  have hall : ∀ f ∈ all, ' ' ∉ f.mnemonic.toList ∧ ':' ∉ f.mnemonic.toList ∧
      f.mnemonic ≠ "data" ∧ f.mnemonic ≠ "" := by decide
  exact hall f (mem_all f)

end Form

namespace Instr

/-- Loading a number and loading an address are written alike. -/
def form : Instr → Form
  | .li .. | .la .. => .move
  | .lw .. => .load
  | .sw .. => .store
  | .addi .. => .addi
  | .alu op _ _ _ => .alu op
  | .branch test _ _ _ => .branch test
  | .jal .. => .jump
  | .jalr .. => .call
  | .ewrite _ => .write
  | .ebreak => .stop

def operands : Instr → List String
  | .li rd n => [rd.name, number n]
  | .la rd label => [rd.name, label]
  | .lw rd base offset => [rd.name, base.name, number offset]
  | .sw base offset src => [base.name, number offset, src.name]
  | .addi rd rs n => [rd.name, rs.name, number n]
  | .alu _ rd a b => [rd.name, a.name, b.name]
  | .branch _ a b label => [a.name, b.name, label]
  | .jal rd label => [rd.name, label]
  | .jalr rd rs offset => [rd.name, rs.name, number offset]
  | .ewrite rs => [rs.name]
  | .ebreak => []

theorem text_eq_written {i : Instr} (h : i.operands ≠ []) : i.text = written i.form.mnemonic i.operands := by
  cases i with
  | ebreak => exact absurd rfl h
  | _ => rfl

theorem eq_ebreak {i : Instr} (h : i.operands = []) : i = .ebreak := by
  cases i with
  | ebreak => rfl
  | _ => cases h

/-- an instruction that names registers of the machine, and a label only if it is a name -/
structure Plain (i : Instr) : Prop where
  registers : ∀ r ∈ i.registers, ∃ n, r = .numbered n
  label : ∀ label ∈ i.label?, Text.isName label = true

end Instr

theorem number_inj {m n : Int32} : number m = number n ↔ m = n :=
  ⟨fun h => Int32.toInt_inj.mp (Decimal.integer_injective h), congrArg number⟩

/-- a number starts with a digit or a minus sign, and a name does not -/
theorem number_ne_name {n : Int32} {s : String} (hs : Text.isName s = true) : number n ≠ s := by
  rintro rfl
  obtain ⟨hhead, -⟩ := Bool.and_eq_true_iff.mp hs
  obtain ⟨c, hc, hletter⟩ := (Option.any_eq_true ..).mp hhead
  have hmem := List.mem_of_head? hc
  rw [number, Decimal.integer, String.toList_ofList] at hmem
  have hminus : c ≠ '-' := by
    rintro rfl
    exact absurd hletter (by decide)
  exact Decimal.not_mem_integerDigits (Scan.not_isDigit_of_isLetter hletter) hminus _ hmem

theorem Reg.name_injective {r s : Reg} (hr : ∃ n, r = .numbered n) (hs : ∃ n, s = .numbered n)
    (h : r.name = s.name) : r = s := by
  obtain ⟨m, rfl⟩ := hr
  obtain ⟨n, rfl⟩ := hs
  have hnumber : Decimal.integer m.val = Decimal.integer n.val := String.append_right_inj _ |>.mp h
  rw [Fin.ext (Int.ofNat.inj (Decimal.integer_injective hnumber))]

namespace Instr

variable {i j : Instr}

theorem Plain.solid (h : i.Plain) : ∀ s ∈ i.operands, Solid s := by
  have hregister : ∀ r ∈ i.registers, Solid r.name := by
    intro r hr
    obtain ⟨n, rfl⟩ := h.registers r hr
    exact solid_register n
  have hlabel : ∀ label ∈ i.label?, Solid label := fun label hl => solid_of_isName (h.label label hl)
  cases i <;> simp_all [operands, Instr.registers, label?, solid_number]

/-- The registers, numbers and labels of an instruction are known by their texts, each at its place. -/
theorem eq_of_operands (hi : i.Plain) (hj : j.Plain) (hform : i.form = j.form)
    (hoperands : i.operands = j.operands) : i = j := by
  have hname : ∀ r ∈ i.registers, ∀ s ∈ j.registers, r.name = s.name ↔ r = s := fun r hr s hs =>
    ⟨Reg.name_injective (hi.registers r hr) (hj.registers s hs), congrArg Reg.name⟩
  cases i with
  | li rd n =>
    cases j with
    | li => simp_all [operands, registers, number_inj]
    | la rd' label =>
      have hlabel : number n ≠ label := number_ne_name (hj.label label rfl)
      simp_all [operands]
    | _ => cases hform
  | la rd label =>
    cases j with
    | li rd' n =>
      have hlabel : number n ≠ label := number_ne_name (hi.label label rfl)
      simp_all [operands]
    | la => simp_all [operands, registers]
    | _ => cases hform
  | lw =>
    cases j with
    | lw => simp_all [operands, registers, number_inj]
    | _ => cases hform
  | sw =>
    cases j with
    | sw => simp_all [operands, registers, number_inj]
    | _ => cases hform
  | addi =>
    cases j with
    | addi => simp_all [operands, registers, number_inj]
    | _ => cases hform
  | alu =>
    cases j with
    | alu => simp_all [form, operands, registers]
    | _ => cases hform
  | branch =>
    cases j with
    | branch => simp_all [form, operands, registers]
    | _ => cases hform
  | jal =>
    cases j with
    | jal => simp_all [operands, registers]
    | _ => cases hform
  | jalr =>
    cases j with
    | jalr => simp_all [operands, registers, number_inj]
    | _ => cases hform
  | ewrite =>
    cases j with
    | ewrite => simp_all [operands, registers]
    | _ => cases hform
  | ebreak =>
    cases j with
    | ebreak => rfl
    | _ => cases hform

theorem blank_mem_text {i : Instr} (h : i.operands ≠ []) : ' ' ∈ i.text.toList := by
  rw [text_eq_written h, toList_written]
  exact List.mem_append_right _ List.mem_cons_self

/-- **The text of an instruction determines it**, if it names registers of the machine and its label is a
name. -/
theorem text_injective (hi : i.Plain) (hj : j.Plain) (h : i.text = j.text) : i = j := by
  -- only the instruction without operands has no blank in its text
  have hblank : ' ' ∉ Instr.ebreak.text.toList := by decide
  by_cases hno : i.operands = []
  · obtain rfl := eq_ebreak hno
    by_cases hno' : j.operands = []
    · exact (eq_ebreak hno').symm
    · exact absurd (blank_mem_text hno') (h ▸ hblank)
  by_cases hno' : j.operands = []
  · obtain rfl := eq_ebreak hno'
    exact absurd (blank_mem_text hno) (h ▸ hblank)
  rw [text_eq_written hno, text_eq_written hno'] at h
  obtain ⟨hmnemonic, hoperands⟩ := written_inj (Form.mnemonic_spec _).1 (Form.mnemonic_spec _).1
    hi.solid hj.solid hno hno' h
  exact eq_of_operands hi hj (Form.mnemonic_injective hmnemonic) hoperands

end Instr

/-! ### Lines -/

namespace Line

/-- a plain instruction, or a label that is a name -/
def Plain : Line → Prop
  | label name => Text.isName name = true
  | instr i => i.Plain
  | data .. | blank => True

/-- the first word of the text of a line -/
def head : Line → String
  | label name => name ++ ":"
  | instr i => i.form.mnemonic
  | data .. => "data"
  | blank => ""

theorem toList_data (value : Int32) (count : Nat) : (data value count).text.toList =
    "data".toList ++ ' ' :: ((number value).toList ++ ' ' :: ("* " ++ Decimal.integer count).toList) := by
  show ("data " ++ number value ++ " * " ++ Decimal.integer count).toList = _
  simp only [String.toList_append, List.append_assoc]
  rfl

theorem takeWhile_text {line : Line} (h : line.Plain) :
    line.text.toList.takeWhile (· != ' ') = line.head.toList := by
  cases line with
  | label name =>
    have hname : ' ' ∉ (name ++ ":").toList := by
      rw [String.toList_append, List.mem_append, not_or]
      exact ⟨(solid_of_isName h).1, by decide⟩
    exact List.takeWhile_eq_self_iff.mpr (bne_of_not_mem hname)
  | instr i =>
    by_cases hno : i.operands = []
    · obtain rfl := Instr.eq_ebreak hno
      decide
    · show i.text.toList.takeWhile _ = _
      rw [Instr.text_eq_written hno, toList_written]
      exact takeWhile_span (bne_of_not_mem (Form.mnemonic_spec _).1) (head_blank _)
  | data value count =>
    rw [toList_data]
    exact takeWhile_span (bne_of_not_mem (by decide)) (head_blank _)
  | blank => rfl

theorem colon_ne {name word : String} (h : ':' ∉ word.toList) : name ++ ":" ≠ word := by
  rintro rfl
  rw [String.toList_append] at h
  exact h (List.mem_append_right _ List.mem_cons_self)

theorem data_inj {v v' : Int32} {n n' : Nat} (h : (data v n).text = (data v' n').text) :
    data v n = data v' n' := by
  have hlist := congrArg String.toList h
  rw [toList_data, toList_data] at hlist
  have htail := (List.cons.inj (List.append_cancel_left hlist)).2
  obtain ⟨hvalue, hrest⟩ := span_inj (bne_of_not_mem (solid_number v).1) (head_blank _)
    (bne_of_not_mem (solid_number v').1) (head_blank _) htail
  have hcount := String.toList_injective (List.cons.inj hrest).2
  rw [number_inj.mp (String.toList_injective hvalue),
    Int.ofNat.inj (Decimal.integer_injective ((String.append_right_inj _).mp hcount))]

/-- **The text of a line determines it**, if its instruction is plain or its label a name. -/
theorem text_injective {a b : Line} (ha : a.Plain) (hb : b.Plain) (h : a.text = b.text) : a = b := by
  have hdata : ':' ∉ "data".toList := by decide
  have hempty : ("data" : String) ≠ "" := by decide
  -- lines of two kinds differ in their first words
  have hhead : a.head = b.head := by
    apply String.toList_injective
    rw [← takeWhile_text ha, ← takeWhile_text hb, h]
  cases a with
  | label name =>
    cases b with
    | label name' => rw [(String.append_left_inj _).mp h]
    | instr j => exact absurd hhead (colon_ne (Form.mnemonic_spec _).2.1)
    | data => exact absurd hhead (colon_ne hdata)
    | blank => exact absurd hhead (colon_ne List.not_mem_nil)
  | instr i =>
    obtain ⟨-, hcolon, hnotData, hnotEmpty⟩ := i.form.mnemonic_spec
    cases b with
    | label name => exact absurd hhead.symm (colon_ne hcolon)
    | instr j => rw [Instr.text_injective ha hb h]
    | data => exact absurd hhead hnotData
    | blank => exact absurd hhead hnotEmpty
  | data v n =>
    cases b with
    | label name => exact absurd hhead.symm (colon_ne hdata)
    | instr j => exact absurd hhead.symm (Form.mnemonic_spec _).2.2.1
    | data v' n' => exact data_inj h
    | blank => exact absurd hhead hempty
  | blank =>
    cases b with
    | label name => exact absurd hhead.symm (colon_ne List.not_mem_nil)
    | instr j => exact absurd hhead.symm (Form.mnemonic_spec _).2.2.2
    | data => exact absurd hhead.symm hempty
    | blank => rfl

end Line

end Assembly

end TinyScript
