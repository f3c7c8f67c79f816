import TinyScript.Proofs.Compile.Labels

/-!
# A listing defines the labels to which it refers

Code is generated piece by piece, and a piece refers forward to labels that other pieces define: its
own control labels, the routines, the words of the variables and the texts of the pool.  The plan
that foresees the variables and texts may be that of another program.

* `Assembly.references`       the labels to which the instructions of some lines refer
* `Plan.Known`                the labels of a listing whose control labels lie in a range of numbers
* `Plan.refers_blockCode`     the code of a block refers to known labels only
* `Plan.labelCountBlock_eq`   how many control labels a block takes
* `listing_labels_closed`     the labels of a listing are distinct, they are all that it refers to, and
                              so many of them are control labels
-/

namespace TinyScript

namespace Assembly

/-- the label to which an instruction refers -/
def Instr.label? : Instr → Option String
  | .la _ label | .branch _ _ _ label | .jal _ label => some label
  | .li .. | .lw .. | .sw .. | .addi .. | .alu .. | .jalr .. | .ewrite _ | .ebreak => none

def Line.reference? : Line → Option String
  | .instr i => i.label?
  | .label _ | .data .. | .blank => none

/-- the labels to which the instructions of the lines refer, in order -/
def references (lines : List Line) : List String := lines.filterMap Line.reference?

theorem references_append (a b : List Line) :
    references (a ++ b) = references a ++ references b := List.filterMap_append

theorem references_flatMap_of_nil {α : Type} {f : α → List Line} (h : ∀ a, references (f a) = [])
    (as : List α) : references (as.flatMap f) = [] := by
  induction as with
  | nil => rfl
  | cons a as ih => rw [List.flatMap_cons, references_append, h, ih]; rfl

/-- whether the label is that of a jump: an `L` and a number -/
def isControlLabel (label : String) : Bool :=
  match label.toList with
  | 'L' :: digits => !digits.isEmpty && digits.all Char.isDigit
  | _ => false

end Assembly

open Assembly

namespace Plan

/-! ### What code refers to -/

/-- the labels of a listing with `count` control labels, of which `n` is the first -/
inductive Known (plan : Plan) (n count : Nat) : String → Prop
  | fixed {label : String} (h : label ∈ fixedLabels) : Known plan n count label
  | control {k : Nat} (hlo : n ≤ k) (hhi : k < n + count) : Known plan n count (controlLabel k)
  | literal {e : PoolEntry} (h : e ∈ plan.pool.entries) : Known plan n count e.label
  | slot {name : String} (h : name ∈ plan.names) : Known plan n count (slotLabel name)

/-- code all of whose references are known -/
def Refers (plan : Plan) (n count : Nat) (code : List Line) : Prop :=
  ∀ label ∈ references code, plan.Known n count label

variable {plan : Plan} {n count : Nat} {code : List Line}

theorem Known.mono {label : String} (h : plan.Known n count label) {n' count' : Nat}
    (hlo : n' ≤ n) (hhi : n + count ≤ n' + count') : plan.Known n' count' label := by
  cases h with
  | fixed h => exact .fixed h
  | control h₁ h₂ => exact .control (Nat.le_trans hlo h₁) (Nat.lt_of_lt_of_le h₂ hhi)
  | literal h => exact .literal h
  | slot h => exact .slot h

theorem Known.mem_labels {p : Program} {lines : List Line} (hl : plan.listing p = .ok lines)
    {label : String} (h : plan.Known plan.labels.allocated (plan.labelCountBlock p) label) :
    label ∈ Assembly.labels lines := by
  rw [(labels_listing_perm hl).mem_iff]
  cases h with
  | fixed h => exact List.mem_append_left _ h
  | control hlo hhi =>
    have hmem := List.mem_map_of_mem (f := controlLabel) (List.mem_range'_1.mpr ⟨hlo, hhi⟩)
    exact List.mem_append_right _ (List.mem_append_left _ hmem)
  | literal h =>
    have hmem := List.mem_map_of_mem (f := PoolEntry.label) h
    exact List.mem_append_right _ (List.mem_append_right _ (List.mem_append_left _ hmem))
  | slot h =>
    have hmem := List.mem_map_of_mem (f := slotLabel) h
    exact List.mem_append_right _ (List.mem_append_right _ (List.mem_append_right _ hmem))

namespace Refers

theorem silent (h : references code = []) : plan.Refers n count code := by
  intro label hl
  rw [h] at hl
  cases hl

theorem single {label : String} (h : references code = [label])
    (hk : plan.Known n count label) : plan.Refers n count code := by
  intro l hl
  rw [h, List.mem_singleton] at hl
  rwa [hl]

theorem append {first second : List Line} (hf : plan.Refers n count first)
    (hs : plan.Refers n count second) : plan.Refers n count (first ++ second) := by
  intro label hl
  rw [references_append, List.mem_append] at hl
  exact hl.elim (hf label) (hs label)

theorem mono (h : plan.Refers n count code) {n' count' : Nat} (hlo : n' ≤ n)
    (hhi : n + count ≤ n' + count') : plan.Refers n' count' code :=
  fun label hl => (h label hl).mono hlo hhi

theorem label_cons (h : plan.Refers n count code) (name : String) :
    plan.Refers n count (.label name :: code) := h

theorem blank_cons (h : plan.Refers n count code) : plan.Refers n count (.blank :: code) := h

end Refers

theorem refers_branch {k : Nat} (hlo : n ≤ k) (hhi : k < n + count) :
    plan.Refers n count (Fragment.branchIfFalse .result (controlLabel k)) :=
  .single rfl (.control hlo hhi)

theorem refers_jump {k : Nat} (hlo : n ≤ k) (hhi : k < n + count) :
    plan.Refers n count (Fragment.jump (controlLabel k)) :=
  .single rfl (.control hlo hhi)

theorem refers_combine (op : Operator) : plan.Refers n count (Fragment.combine op) := by
  have hfixed : ∀ label ∈ references (Fragment.combine op), label ∈ fixedLabels := by
    cases op <;> decide +kernel
  exact fun label hl => .fixed (hfixed label hl)

theorem refers_writeTextVar {name : String} (h : name ∈ plan.names) (hc : 2 ≤ count) :
    plan.Refers n count
      (Fragment.writeTextVar (slotLabel name) (controlLabel n) (controlLabel (n + 1))) := by
  have hloop : plan.Known n count (controlLabel n) := .control (Nat.le_refl n) (by omega)
  have hend : plan.Known n count (controlLabel (n + 1)) := .control (by omega) (by omega)
  intro label hl
  have hmem : label ∈ [slotLabel name, controlLabel n, controlLabel (n + 1), controlLabel (n + 1),
    controlLabel n] := hl
  simp only [List.mem_cons, List.not_mem_nil, or_false] at hmem
  rcases hmem with rfl | rfl | rfl | rfl | rfl
  · exact .slot h
  · exact hloop
  · exact hend
  · exact hend
  · exact hloop

theorem refers_valueCode {e : Expr} (h : plan.valueCode e = .ok code) :
    plan.Refers n count code := by
  induction e generalizing code with
  | int k =>
    rw [← Except.ok.inj h]
    exact .silent rfl
  | float x => cases h
  | text s => cases h
  | var name =>
    obtain ⟨-, hn, rfl⟩ := valueCode_var_ok h
    exact .single rfl (.slot hn)
  | group e ih => exact ih h
  | binary op left right ihl ihr =>
    obtain ⟨first, second, hfirst, hsecond, rfl⟩ := valueCode_binary_ok h
    have hsave : plan.Refers n count Fragment.save := .silent rfl
    have hrestore : plan.Refers n count Fragment.restoreLeft := .silent rfl
    exact ((((ihl hfirst).append hsave).append (ihr hsecond)).append hrestore).append
      (refers_combine op)
  | not e ih =>
    obtain ⟨first, hfirst, rfl⟩ := valueCode_not_ok h
    exact (ih hfirst).append (.silent rfl)
  | round e => cases h

theorem refers_assignCode {name : String} {value : Expr}
    (h : plan.assignCode name value = .ok code) : plan.Refers n count code := by
  obtain ⟨hn, ⟨text, e, -, he, rfl⟩ | ⟨-, -, first, hfirst, rfl⟩⟩ := assignCode_ok h
  · have htarget : plan.Refers n count (code [.la .address e.label]) :=
      .single rfl (.literal (Pool.mem_of_entry? he))
    have hstore : plan.Refers n count (code [.la .left (slotLabel name), .sw .left 0 .address]) :=
      .single rfl (.slot hn)
    exact htarget.append hstore
  · exact (refers_valueCode hfirst).append (.single rfl (.slot hn))

theorem refers_printCode {value : Expr} (h : plan.printCode n value = .ok code) :
    plan.Refers n (plan.labelCount (.print value)) code := by
  obtain ⟨text, -, rfl⟩ | ⟨name, hn, -, ht, rfl⟩ | ⟨-, -, first, hfirst, rfl⟩ := printCode_ok h
  · exact .silent (references_flatMap_of_nil (fun _ => rfl) _)
  · refine refers_writeTextVar hn ?_
    rw [labelCount, ht]
    exact Nat.le_refl 2
  · exact (refers_valueCode hfirst).append (.single rfl (.fixed (by decide +kernel)))

mutual

theorem refers_stmtCode {n : Nat} {code : List Line} : (s : Stmt) →
    plan.stmtCode n s = .ok code → plan.Refers n (plan.labelCount s) code
  | .assign name value => fun h => refers_assignCode h
  | .print value => fun h => by
    obtain ⟨first, hfirst, rfl⟩ := stmtCode_print_ok h
    exact (refers_printCode hfirst).append (.silent rfl)
  | .ite condition body none => fun h => by
    obtain ⟨test, first, htest, hfirst, rfl⟩ := stmtCode_ite_none_ok h
    have hbody : plan.Refers n (2 + plan.labelCountBlock body) first :=
      (refers_blockCode body hfirst).mono (by omega) (by omega)
    have hbranch : plan.Refers n (2 + plan.labelCountBlock body)
        (Fragment.branchIfFalse .result (controlLabel n)) := refers_branch (by omega) (by omega)
    have hjump : plan.Refers n (2 + plan.labelCountBlock body)
        (Fragment.jump (controlLabel (n + 1))) := refers_jump (by omega) (by omega)
    exact ((((refers_valueCode htest).append hbranch).append hbody).append hjump).append
      (.silent rfl)
  | .ite condition body (some other) => fun h => by
    obtain ⟨test, first, second, htest, hfirst, hsecond, rfl⟩ := stmtCode_ite_some_ok h
    have hbody : plan.Refers n (2 + plan.labelCountBlock body + plan.labelCountBlock other) first :=
      (refers_blockCode body hfirst).mono (by omega) (by omega)
    have hother : plan.Refers n (2 + plan.labelCountBlock body + plan.labelCountBlock other) second :=
      (refers_blockCode other hsecond).mono (by omega) (by omega)
    have hbranch : plan.Refers n (2 + plan.labelCountBlock body + plan.labelCountBlock other)
        (Fragment.branchIfFalse .result (controlLabel n)) := refers_branch (by omega) (by omega)
    have hjump : plan.Refers n (2 + plan.labelCountBlock body + plan.labelCountBlock other)
        (Fragment.jump (controlLabel (n + 1))) := refers_jump (by omega) (by omega)
    exact (((((refers_valueCode htest).append hbranch).append hbody).append hjump).append
      (hother.label_cons _)).append (.silent rfl)
  | .while condition body => fun h => by
    obtain ⟨test, loop, htest, hloop, rfl⟩ := stmtCode_while_ok h
    have hbody : plan.Refers n (2 + plan.labelCountBlock body) loop :=
      (refers_blockCode body hloop).mono (by omega) (by omega)
    have hbranch : plan.Refers n (2 + plan.labelCountBlock body)
        (Fragment.branchIfFalse .result (controlLabel (n + 1))) :=
      refers_branch (by omega) (by omega)
    have hjump : plan.Refers n (2 + plan.labelCountBlock body)
        (Fragment.jump (controlLabel n)) := refers_jump (by omega) (by omega)
    exact (((((refers_valueCode htest).label_cons _).append hbranch).append hbody).append
      hjump).append (.silent rfl)
  | .block body => fun h => refers_blockCode body h

/-- The code of a block refers to its own control labels and to those outside of all statements. -/
theorem refers_blockCode {n : Nat} {code : List Line} : (b : Block) →
    plan.blockCode n b = .ok code → plan.Refers n (plan.labelCountBlock b) code
  | [] => fun h => by
    rw [← Except.ok.inj h]
    exact .silent rfl
  | s :: ss => fun h => by
    obtain ⟨first, rest, hfirst, hrest, rfl⟩ := blockCode_cons_ok h
    rw [labelCountBlock]
    have hs : plan.Refers n (plan.labelCount s + plan.labelCountBlock ss) first :=
      (refers_stmtCode s hfirst).mono (by omega) (by omega)
    exact hs.append ((refers_blockCode ss hrest).mono (by omega) (by omega))

end

/-- behind the statements only the routine that prints a number refers to anything -/
theorem refers_supplement (stackWords : Nat) :
    plan.Refers n count (plan.supplement stackWords) := by
  have hfixed : ∀ label ∈ references Fragment.printInt, label ∈ fixedLabels := by decide +kernel
  have hprint : plan.Refers n count (.blank :: Fragment.printInt) :=
    fun label hl => .fixed (hfixed label hl)
  have htrap : plan.Refers n count (.blank :: Fragment.divisionTrap) := by
    have hmessage : plan.Refers n count
        (Fragment.trapMessage.toUTF8.toList.flatMap Fragment.writeByte) :=
      .silent (references_flatMap_of_nil (fun _ => rfl) _)
    exact ((hmessage.label_cons Fragment.trapLabel).append (.silent rfl)).blank_cons
  have hpool : plan.Refers n count (.blank :: (plan.pool.entries.flatMap fun e =>
      Fragment.literal e.label e.bytes.toList ++ [.blank])) := by
    refine .silent (references_flatMap_of_nil (fun e => ?_) plan.pool.entries)
    rw [references_append, Fragment.literal, references_append]
    simp [references, Line.reference?]
  have hslots : plan.Refers n count (plan.names.flatMap fun name =>
      Fragment.variableSlot (slotLabel name)) :=
    .silent (references_flatMap_of_nil (fun _ => rfl) plan.names)
  have hgap : plan.Refers n count (if plan.storage.isEmpty then [] else [.blank]) := by
    split <;> exact .silent rfl
  exact ((((hprint.append htrap).append hpool).append hslots).append hgap).append (.silent rfl)

/-- a listing refers to the labels of its own statements and to those outside of all statements -/
theorem refers_listing {p : Program} {lines : List Line} (h : plan.listing p = .ok lines) :
    plan.Refers plan.labels.allocated (plan.labelCountBlock p) lines := by
  obtain ⟨statements, hs, rfl⟩ := listing_ok h
  have hstart : plan.Refers plan.labels.allocated (plan.labelCountBlock p) Fragment.programStart :=
    .single rfl (.fixed (by decide +kernel))
  exact ((hstart.append (refers_blockCode p hs)).append (.silent rfl)).append (refers_supplement _)

/-! ### How many control labels there are -/

/-- a statement that prints a variable which the plan takes for textual -/
def printsTextVariable (plan : Plan) : Stmt → Bool
  | .print value => (plan.textVariable? value).isSome
  | _ => false

end Plan

def Stmt.isBranching : Stmt → Bool
  | .ite .. | .while .. => true
  | _ => false

namespace Plan

variable {plan : Plan}

mutual

theorem labelCount_eq : (s : Stmt) → plan.labelCount s =
    2 * (s.parts.countP Stmt.isBranching + s.parts.countP plan.printsTextVariable)
  | .assign name value => rfl
  | .print value => by
    rw [labelCount, Stmt.parts, List.countP_singleton, List.countP_singleton]
    show _ = 2 * (0 + if (plan.textVariable? value).isSome = true then 1 else 0)
    split <;> rfl
  | .ite condition body none => by
    rw [labelCount, labelCountBlock_eq body, Stmt.parts, List.countP_cons, List.countP_cons]
    show 2 + 2 * _ = 2 * ((_ + 1) + (_ + 0))
    omega
  | .ite condition body (some other) => by
    rw [labelCount, labelCountBlock_eq body, labelCountBlock_eq other, Stmt.parts, List.countP_cons,
      List.countP_cons, List.countP_append, List.countP_append]
    show 2 + 2 * _ + 2 * _ = 2 * ((_ + 1) + (_ + 0))
    omega
  | .while condition body => by
    rw [labelCount, labelCountBlock_eq body, Stmt.parts, List.countP_cons, List.countP_cons]
    show 2 + 2 * _ = 2 * ((_ + 1) + (_ + 0))
    omega
  | .block body => by
    rw [labelCount, labelCountBlock_eq body, Stmt.parts, List.countP_cons, List.countP_cons]
    rfl

/-- a conditional, a loop and a printed text variable take two control labels each -/
theorem labelCountBlock_eq : (b : Block) → plan.labelCountBlock b =
    2 * ((Stmt.partsBlock b).countP Stmt.isBranching +
      (Stmt.partsBlock b).countP plan.printsTextVariable)
  | [] => rfl
  | s :: ss => by
    rw [labelCountBlock, labelCount_eq s, labelCountBlock_eq ss, Stmt.partsBlock,
      List.countP_append, List.countP_append]
    omega

end

theorem isControlLabel_controlLabel (n : Nat) : isControlLabel (controlLabel n) = true := by
  unfold isControlLabel
  rw [controlLabel, Labels.toList_label]
  show (!(Nat.toDigits 10 n).isEmpty && (Nat.toDigits 10 n).all Char.isDigit) = true
  simp only [Bool.and_eq_true, List.all_eq_true]
  exact ⟨by simp [Nat.toDigits_ne_nil], fun c hc =>
    Nat.isDigit_of_mem_toDigits (by decide) (by decide) hc⟩

theorem stem_of_isControlLabel {label : String} (h : isControlLabel label = true) :
    (stem label).head? = some 'L' := by
  unfold isControlLabel at h
  rw [stem]
  split at h
  · next digits hd => rw [hd]; rfl
  · cases h

theorem countP_controlLabels (hr : plan.Regular) {p : Program} {lines : List Line}
    (h : plan.listing p = .ok lines) :
    (Assembly.labels lines).countP isControlLabel = plan.labelCountBlock p := by
  have hfixed : fixedLabels.countP isControlLabel = 0 := by decide +kernel
  have hcontrol : (controlLabels plan.labels.allocated (plan.labelCountBlock p)).countP
      isControlLabel = plan.labelCountBlock p := by
    rw [List.countP_eq_length.mpr, controlLabels, List.length_map, List.length_range']
    intro label hl
    obtain ⟨k, -, rfl⟩ := List.mem_map.mp hl
    exact isControlLabel_controlLabel k
  have hpool : (plan.pool.entries.map PoolEntry.label).countP isControlLabel = 0 := by
    rw [List.countP_eq_zero]
    intro label hl hc
    rw [hr.entry_labels] at hl
    obtain ⟨k, -, rfl⟩ := List.mem_map.mp hl
    have hL := stem_of_isControlLabel hc
    rw [stem_literal] at hL
    cases hL
  have hslot : (plan.names.map slotLabel).countP isControlLabel = 0 := by
    rw [List.countP_eq_zero]
    intro label hl hc
    obtain ⟨name, -, rfl⟩ := List.mem_map.mp hl
    have hL := stem_of_isControlLabel hc
    rw [stem_slotLabel] at hL
    cases hL
  rw [(labels_listing_perm h).countP_eq, List.countP_append, List.countP_append,
    List.countP_append, hfixed, hcontrol, hpool, hslot]
  omega

end Plan

/-- **The labels of a listing are distinct and closed.**  Whatever program the plan was made for, no
label is defined twice, every label to which an instruction refers is defined, and there are two
control labels for each conditional, each loop and each printed text variable. -/
theorem listing_labels_closed {p q : Program} {lines : List Line} (h : q.plan.listing p = .ok lines) :
    (Assembly.labels lines).Nodup ∧
      (∀ label ∈ references lines, label ∈ Assembly.labels lines) ∧
      (Assembly.labels lines).countP isControlLabel =
        2 * ((Stmt.partsBlock p).countP Stmt.isBranching +
          (Stmt.partsBlock p).countP q.plan.printsTextVariable) := by
  have hr := Plan.regular_plan q
  refine ⟨Plan.nodup_labels_listing hr h, fun label hl => ?_, ?_⟩
  · exact (Plan.refers_listing h label hl).mem_labels h
  · rw [Plan.countP_controlLabels hr h, Plan.labelCountBlock_eq]

/-- a program for whose plan two variables are textual -/
def lender : Program :=
  [.assign "s" (.text "x"), .block [.assign "t" (.text "y")], .print (.var "n")]

/-- a loop that prints one of them, and a conditional that assigns the other -/
def borrower : Program :=
  [.while (.var "n") [.print (.group (.var "s")), .assign "n" (.int 0)],
    .ite (.not (.var "n")) [.assign "t" (.text "y")] none]

theorem listing_labels_closed_borrower :
    ∃ lines, lender.plan.listing borrower = .ok lines ∧ (Assembly.labels lines).Nodup ∧
      (∀ label ∈ references lines, label ∈ Assembly.labels lines) ∧
      (Assembly.labels lines).countP isControlLabel = 2 * (2 + 1) :=
  have h : lender.plan.listing borrower = .ok _ := rfl
  ⟨_, h, listing_labels_closed h⟩

end TinyScript
