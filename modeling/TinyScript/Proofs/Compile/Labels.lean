import Mathlib.Data.List.Nodup
import TinyScript.Proofs.Compile.Cases
import TinyScript.Proofs.Labels
import TinyScript.Proofs.Machine.Placement
import TinyScript.Proofs.Plan.Regular

/-!
# No label is defined twice

The labels of a listing come from a few families: those that every listing has, one for each variable,
one for each literal, and those for jumps.  The first letters tell the families apart, and in each of
the last two families a label is known by its number.

* `labels_blockCode`        the jumps of a block use each of the numbers that they take exactly once
* `nodup_labels_listing`    no label of a listing is defined twice
-/

namespace TinyScript

open Assembly

namespace Plan

variable {plan : Plan} {n : Nat} {code : List Line}

/-! ### The labels of jumps -/

def controlLabels (n count : Nat) : List String := (List.range' n count).map controlLabel

theorem controlLabels_add (n a b : Nat) :
    controlLabels n (a + b) = controlLabels n a ++ controlLabels (n + a) b := by
  unfold controlLabels
  rw [← List.map_append, ← List.range'_append, Nat.one_mul]

theorem nodup_controlLabels (n count : Nat) : (controlLabels n count).Nodup :=
  List.Nodup.map (Labels.label_injective controlStem) (List.nodup_range' 1)

theorem labels_combine (op : Operator) : Assembly.labels (Fragment.combine op) = [] := by
  cases op <;> rfl

theorem labels_valueCode {e : Expr} (h : plan.valueCode e = .ok code) : Assembly.labels code = [] := by
  induction e generalizing code with
  | int k => rw [← Except.ok.inj h]; rfl
  | float x => cases h
  | text s => cases h
  | var name =>
    obtain ⟨-, -, rfl⟩ := valueCode_var_ok h
    rfl
  | group e ih => exact ih h
  | binary op left right ihl ihr =>
    obtain ⟨first, second, hfirst, hsecond, rfl⟩ := valueCode_binary_ok h
    simp [ihl hfirst, ihr hsecond, labels_combine, Fragment.save, Fragment.restoreLeft]
  | not e ih =>
    obtain ⟨first, hfirst, rfl⟩ := valueCode_not_ok h
    simp [ih hfirst, Fragment.negate]
  | round e => cases h

theorem labels_writeBytes (bytes : List UInt8) : Assembly.labels (bytes.flatMap Fragment.writeByte) = [] := by
  induction bytes with
  | nil => rfl
  | cons b bytes ih => rw [List.flatMap_cons, labels_append, ih, Fragment.writeByte, labels_code]; rfl

theorem labels_assignCode {name : String} {value : Expr}
    (h : plan.assignCode name value = .ok code) : Assembly.labels code = [] := by
  obtain ⟨-, ⟨text, e, -, -, rfl⟩ | ⟨-, -, first, hfirst, rfl⟩⟩ := assignCode_ok h
  · rfl
  · simp [labels_valueCode hfirst, Fragment.storeVar]

theorem labels_printCode {value : Expr} (h : plan.printCode n value = .ok code) :
    Assembly.labels code = controlLabels n (if (plan.textVariable? value).isSome then 2 else 0) := by
  obtain ⟨text, hv, rfl⟩ | ⟨name, -, -, ht, rfl⟩ | ⟨-, ht, first, hfirst, rfl⟩ := printCode_ok h
  · have ht : plan.textVariable? value = none := by
      unfold textVariable? Expr.literal? at *
      split at hv
      · next s hs => rw [hs]
      · cases hv
    rw [ht, labels_writeBytes]
    rfl
  · rw [ht]
    rfl
  · rw [ht]
    simp [labels_valueCode hfirst, Fragment.callPrintInt, controlLabels]

mutual

theorem labels_stmtCode {n : Nat} {code : List Line} : (s : Stmt) →
    plan.stmtCode n s = .ok code → (Assembly.labels code).Perm (controlLabels n (plan.labelCount s))
  | .assign name value => fun h => by
    rw [labels_assignCode h]
    exact .nil
  | .print value => fun h => by
    obtain ⟨first, hfirst, rfl⟩ := stmtCode_print_ok h
    rw [labels_append, labels_printCode hfirst, newline, Fragment.writeByte, labels_code,
      List.append_nil]
    exact .refl _
  | .ite condition body none => fun h => by
    obtain ⟨test, first, htest, hfirst, rfl⟩ := stmtCode_ite_none_ok h
    have hb := labels_blockCode body hfirst
    rw [labelCount, controlLabels_add]
    simp only [labels_append, labels_valueCode htest, Fragment.branchIfFalse, Fragment.jump,
      labels_code, List.nil_append, List.append_nil]
    exact (List.Perm.append_right _ hb).trans List.perm_append_comm
  | .ite condition body (some other) => fun h => by
    obtain ⟨test, first, second, htest, hfirst, hsecond, rfl⟩ := stmtCode_ite_some_ok h
    have hb := labels_blockCode body hfirst
    have ho := labels_blockCode other hsecond
    rw [labelCount, controlLabels_add, controlLabels_add]
    simp only [labels_append, labels_valueCode htest, Fragment.branchIfFalse, Fragment.jump,
      labels_code, List.nil_append, List.append_nil, Assembly.labels]
    have hlast : (controlLabel n :: (Assembly.labels second ++ [controlLabel (n + 1)])).Perm
        (controlLabels n 2 ++ Assembly.labels second) :=
      .cons _ List.perm_append_comm
    rw [List.append_assoc, List.cons_append]
    refine (hb.append (hlast.trans (.append_left _ ho))).trans ?_
    rw [← List.append_assoc, ← Nat.add_assoc]
    exact .append_right _ List.perm_append_comm
  | .while condition body => fun h => by
    obtain ⟨test, loop, htest, hloop, rfl⟩ := stmtCode_while_ok h
    have hb := labels_blockCode body hloop
    rw [labelCount, controlLabels_add]
    simp only [labels_append, labels_valueCode htest, Fragment.branchIfFalse, Fragment.jump,
      labels_code, List.nil_append, List.append_nil, List.cons_append, Assembly.labels]
    exact .cons _ ((List.Perm.append_right _ hb).trans List.perm_append_comm)
  | .block body => fun h => labels_blockCode body h

theorem labels_blockCode {n : Nat} {code : List Line} : (b : Block) →
    plan.blockCode n b = .ok code → (Assembly.labels code).Perm (controlLabels n (plan.labelCountBlock b))
  | [] => fun h => by
    rw [← Except.ok.inj h]
    exact .nil
  | s :: ss => fun h => by
    obtain ⟨first, rest, hfirst, hrest, rfl⟩ := blockCode_cons_ok h
    rw [labels_append, labelCountBlock, controlLabels_add]
    exact (labels_stmtCode s hfirst).append (labels_blockCode ss hrest)

end

/-! ### The labels of a listing -/

def fixedLabels : List String :=
  [Fragment.entryLabel, Fragment.printIntLabel, Fragment.digitsLabel, Fragment.collectLabel,
    Fragment.replayLabel, Fragment.zeroLabel, Fragment.negativeLabel, Fragment.trapLabel,
    Fragment.bufferLabel, Fragment.stackLabel, Fragment.stackTopLabel]

theorem labels_literal (name : String) (bytes : List UInt8) :
    Assembly.labels (Fragment.literal name bytes) = [name] := by
  have h : Assembly.labels (bytes.map fun b => Line.data (Int32.ofNat b.toNat) 1) = [] := by
    induction bytes with
    | nil => rfl
    | cons b bytes ih => exact ih
  rw [Fragment.literal, List.cons_append, Assembly.labels, labels_append, h]
  rfl

theorem labels_entries (entries : List PoolEntry) :
    Assembly.labels (entries.flatMap fun e =>
      Fragment.literal e.label e.bytes.toList ++ [.blank]) = entries.map PoolEntry.label := by
  induction entries with
  | nil => rfl
  | cons e entries ih =>
    rw [List.flatMap_cons, labels_append, labels_append, labels_literal, ih]
    rfl

theorem labels_slots (names : List String) :
    Assembly.labels (names.flatMap fun name => Fragment.variableSlot (slotLabel name)) =
      names.map slotLabel := by
  induction names with
  | nil => rfl
  | cons name names ih => rw [List.flatMap_cons, labels_append, ih]; rfl

theorem labels_supplement (plan : Plan) (stackWords : Nat) :
    Assembly.labels (plan.supplement stackWords) =
      [Fragment.printIntLabel, Fragment.digitsLabel, Fragment.collectLabel,
        Fragment.replayLabel, Fragment.zeroLabel, Fragment.negativeLabel, Fragment.trapLabel] ++
      plan.pool.entries.map PoolEntry.label ++ plan.names.map slotLabel ++
      [Fragment.bufferLabel, Fragment.stackLabel, Fragment.stackTopLabel] := by
  have hprint : Assembly.labels Fragment.printInt =
      [Fragment.printIntLabel, Fragment.digitsLabel, Fragment.collectLabel,
        Fragment.replayLabel, Fragment.zeroLabel, Fragment.negativeLabel] := by decide +kernel
  have htrap : Assembly.labels Fragment.divisionTrap = [Fragment.trapLabel] := by
    rw [Fragment.divisionTrap, List.cons_append, Assembly.labels, labels_append, labels_writeBytes,
      labels_code]
    rfl
  have hgap : Assembly.labels (if plan.storage.isEmpty then [] else [.blank]) = [] := by
    split <;> rfl
  unfold supplement
  simp only [List.cons_append, List.append_assoc, Assembly.labels, labels_append, hprint, htrap,
    labels_entries, labels_slots, hgap, List.nil_append]
  rfl

/-- the first letters of a label tell to which family it belongs -/
def stem (label : String) : List Char := label.toList.take 3

theorem stem_controlLabel (n : Nat) : (stem (controlLabel n)).head? = some 'L' := by
  rw [stem, controlLabel, Labels.toList_label]
  rfl

theorem stem_literal (n : Nat) : stem (Labels.label Pool.stem n) = ['s', 't', 'r'] := by
  rw [stem, Labels.toList_label]
  rfl

theorem stem_slotLabel (name : String) : stem (slotLabel name) = ['v', 'a', 'r'] := by
  rw [stem, slotLabel, String.toList_append]
  rfl

theorem slotLabel_injective : Function.Injective slotLabel := by
  intro a b h
  have hl := congrArg String.toList h
  rw [slotLabel, slotLabel, String.toList_append, String.toList_append] at hl
  exact String.toList_injective (List.append_cancel_left hl)

theorem nodup_fixedLabels : fixedLabels.Nodup := by decide +kernel

theorem stem_fixedLabels : ∀ label ∈ fixedLabels, (stem label).head? ≠ some 'L' ∧
    stem label ≠ ['s', 't', 'r'] ∧ stem label ≠ ['v', 'a', 'r'] := by
  decide +kernel

theorem labels_listing_perm {p : Program} {lines : List Line} (h : plan.listing p = .ok lines) :
    (Assembly.labels lines).Perm
      (fixedLabels ++ (controlLabels plan.labels.allocated (plan.labelCountBlock p) ++
        (plan.pool.entries.map PoolEntry.label ++ plan.names.map slotLabel))) := by
  obtain ⟨statements, hs, rfl⟩ := listing_ok h
  have hcontrol := labels_blockCode p hs
  rw [Fragment.programStart, Fragment.programEnd]
  simp only [labels_append, labels_supplement, labels_code, Assembly.labels, fixedLabels]
  rw [List.perm_iff_count]
  intro label
  have hcount := hcontrol.count_eq label
  simp only [List.count_append, List.count_cons, List.count_nil]
  omega

/-- **No label of a listing is defined twice.** -/
theorem nodup_labels_listing (hr : plan.Regular) {p : Program} {lines : List Line}
    (h : plan.listing p = .ok lines) : (Assembly.labels lines).Nodup := by
  have hcontrol : ∀ label ∈ controlLabels plan.labels.allocated (plan.labelCountBlock p),
      (stem label).head? = some 'L' := fun label hl => by
    obtain ⟨k, -, rfl⟩ := List.mem_map.mp hl
    exact stem_controlLabel k
  have hpool : ∀ label ∈ plan.pool.entries.map PoolEntry.label, stem label = ['s', 't', 'r'] :=
    fun label hl => by
      rw [hr.entry_labels] at hl
      obtain ⟨k, -, rfl⟩ := List.mem_map.mp hl
      exact stem_literal k
  have hslot : ∀ label ∈ plan.names.map slotLabel, stem label = ['v', 'a', 'r'] :=
    fun label hl => by
      obtain ⟨name, -, rfl⟩ := List.mem_map.mp hl
      exact stem_slotLabel name
  have hnodup : (plan.pool.entries.map PoolEntry.label).Nodup := by
    rw [hr.entry_labels]
    exact List.Nodup.map (Labels.label_injective Pool.stem) List.nodup_range
  rw [(labels_listing_perm h).nodup_iff, List.nodup_append', List.nodup_append',
    List.nodup_append']
  refine ⟨nodup_fixedLabels, ⟨nodup_controlLabels _ _, ⟨hnodup,
    List.Nodup.map slotLabel_injective plan.storage.nodup_names, ?_⟩, ?_⟩, ?_⟩
  · intro label hp hv
    have he := hpool label hp
    rw [hslot label hv] at he
    cases he
  · intro label hc hx
    have hL := hcontrol label hc
    rcases List.mem_append.mp hx with hp | hv
    · rw [hpool label hp] at hL
      cases hL
    · rw [hslot label hv] at hL
      cases hL
  · intro label hf hx
    obtain ⟨hL, hstr, hvar⟩ := stem_fixedLabels label hf
    rcases List.mem_append.mp hx with hc | hx
    · exact hL (hcontrol label hc)
    · rcases List.mem_append.mp hx with hp | hv
      · exact hstr (hpool label hp)
      · exact hvar (hslot label hv)

end Plan

end TinyScript
