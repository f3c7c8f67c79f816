import TinyScript.Proofs.Compile.Cases
import TinyScript.Proofs.Machine.Placement
import TinyScript.Proofs.Plan.Parts

/-!
# How many operands are on the stack at once

Counting along a listing, one up wherever an operand is saved and one down wherever one is taken back,
never leads farther up than the deepest expression says.

* `Plan.lowered`              the expressions that become code for a number
* `Program.depth`             the greatest depth of those of a program
* `stackDepthBlock_eq`        the compiler asks for so many words
* `peak`                      the highest count along some lines
* `peak_listing`              the highest count along a listing is the depth of its program
-/

namespace TinyScript

open Assembly

/-! ### The deepest expression -/

theorem stackDepth_of_literal? {e : Expr} {text : String} (h : e.literal? = some text) :
    e.stackDepth = 0 := by
  induction e with
  | group e ih => exact ih h
  | text s => rfl
  | _ => cases h

theorem stackDepth_of_ungrouped_var {e : Expr} {name : String} (h : e.ungrouped = .var name) :
    e.stackDepth = 0 := by
  induction e with
  | group e ih => exact ih h
  | var x => rfl
  | _ => cases h

/-- The expressions of a statement itself that become code for a number: not the literals, nor a text
variable that is printed. -/
def Plan.lowered (plan : Plan) : Stmt → List Expr
  | .assign _ value => if value.literal?.isSome then [] else [value]
  | .print value =>
    if value.literal?.isSome ∨ (plan.textVariable? value).isSome then [] else [value]
  | .ite condition _ _ | .while condition _ => [condition]
  | .block _ => []

def greatestDepth (es : List Expr) : Nat := (es.map Expr.stackDepth).foldr max 0

/-- the greatest depth of the expressions of a program that become code for a number -/
def Program.depth (p : Program) : Nat := greatestDepth ((Stmt.partsBlock p).flatMap p.plan.lowered)

theorem greatestDepth_append (xs ys : List Expr) :
    greatestDepth (xs ++ ys) = max (greatestDepth xs) (greatestDepth ys) := by
  induction xs with
  | nil => exact (Nat.zero_max _).symm
  | cons x xs ih =>
    show max x.stackDepth (greatestDepth (xs ++ ys)) = max (max x.stackDepth (greatestDepth xs)) _
    rw [ih, Nat.max_assoc]

theorem greatestDepth_singleton (e : Expr) : greatestDepth [e] = e.stackDepth := Nat.max_zero _

namespace Plan

variable (plan : Plan)

theorem stackDepth_assign (name : String) (value : Expr) :
    (Stmt.assign name value).stackDepth = greatestDepth (plan.lowered (.assign name value)) := by
  rw [lowered, Stmt.stackDepth]
  cases hv : value.literal? with
  | none => exact (greatestDepth_singleton value).symm
  | some text => exact stackDepth_of_literal? hv

theorem stackDepth_print (value : Expr) :
    (Stmt.print value).stackDepth = greatestDepth (plan.lowered (.print value)) := by
  rw [lowered, Stmt.stackDepth]
  split
  · next h =>
    rcases h with h | h
    · obtain ⟨text, ht⟩ := Option.isSome_iff_exists.mp h
      exact stackDepth_of_literal? ht
    · obtain ⟨name, hn⟩ := Option.isSome_iff_exists.mp h
      exact stackDepth_of_ungrouped_var (textVariable?_eq_some hn).1
  · exact (greatestDepth_singleton value).symm

mutual

theorem stackDepth_eq : (s : Stmt) →
    s.stackDepth = greatestDepth (s.parts.flatMap plan.lowered)
  | .assign name value => by
    rw [Stmt.parts, List.flatMap_singleton]
    exact plan.stackDepth_assign name value
  | .print value => by
    rw [Stmt.parts, List.flatMap_singleton]
    exact plan.stackDepth_print value
  | .ite condition body none => by
    rw [Stmt.stackDepth, Stmt.parts, List.flatMap_cons, greatestDepth_append, ← stackDepthBlock_eq,
      lowered, greatestDepth_singleton]
  | .ite condition body (some other) => by
    rw [Stmt.stackDepth, Stmt.parts, List.flatMap_cons, List.flatMap_append, greatestDepth_append,
      greatestDepth_append, ← stackDepthBlock_eq, ← stackDepthBlock_eq, lowered,
      greatestDepth_singleton]
  | .while condition body => by
    rw [Stmt.stackDepth, Stmt.parts, List.flatMap_cons, greatestDepth_append, ← stackDepthBlock_eq,
      lowered, greatestDepth_singleton]
  | .block body => by
    rw [Stmt.stackDepth, Stmt.parts, List.flatMap_cons, greatestDepth_append, ← stackDepthBlock_eq]
    exact (Nat.zero_max _).symm

theorem stackDepthBlock_eq : (b : Block) →
    Stmt.stackDepthBlock b = greatestDepth ((Stmt.partsBlock b).flatMap plan.lowered)
  | [] => rfl
  | s :: ss => by
    rw [Stmt.stackDepthBlock, Stmt.partsBlock, List.flatMap_append, greatestDepth_append,
      ← stackDepth_eq, ← stackDepthBlock_eq]

end

end Plan

/-! ### Counting along the lines -/

namespace Assembly

/-- how many operands are on the stack behind a line, if there are `d` in front of it -/
def countAfter (d : Nat) (line : Line) : Nat :=
  if line = .instr (.addi .stack .stack (-1)) then d + 1
  else if line = .instr (.addi .stack .stack 1) then d - 1
  else d

def countBehind (d : Nat) (lines : List Line) : Nat := lines.foldl countAfter d

/-- the highest count in front of, between and behind some lines -/
def peak : (d : Nat) → List Line → Nat
  | d, [] => d
  | d, line :: lines => max d (peak (countAfter d line) lines)

theorem le_peak (d : Nat) (lines : List Line) : d ≤ peak d lines := by
  cases lines with
  | nil => exact Nat.le_refl d
  | cons line lines => exact Nat.le_max_left _ _

theorem countBehind_append (d : Nat) (xs ys : List Line) :
    countBehind d (xs ++ ys) = countBehind (countBehind d xs) ys := List.foldl_append

theorem peak_append (d : Nat) (xs ys : List Line) :
    peak d (xs ++ ys) = max (peak d xs) (peak (countBehind d xs) ys) := by
  induction xs generalizing d with
  | nil => exact (Nat.max_eq_right (le_peak d ys)).symm
  | cons x xs ih =>
    rw [List.cons_append, peak, ih, peak, Nat.max_assoc]
    rfl

/-- The lines leave as many operands on the stack as there were, and never more than `k` on top of
them. -/
def Rises (k : Nat) (lines : List Line) : Prop :=
  ∀ d, countBehind d lines = d ∧ peak d lines = d + k

theorem Rises.append {j k : Nat} {xs ys : List Line} (hx : Rises j xs) (hy : Rises k ys) :
    Rises (max j k) (xs ++ ys) := by
  intro d
  rw [countBehind_append, peak_append, (hx d).1, (hx d).2, (hy d).1, (hy d).2, Nat.add_max_add_left]
  exact ⟨rfl, rfl⟩

/-- lines that do not move the stack pointer -/
theorem rises_zero {lines : List Line} (h : ∀ n, .instr (.addi .stack .stack n) ∉ lines) :
    Rises 0 lines := by
  induction lines with
  | nil => exact fun d => ⟨rfl, rfl⟩
  | cons line lines ih =>
    intro d
    have hline : countAfter d line = d := by
      unfold countAfter
      rw [if_neg, if_neg]
      · rintro rfl
        exact h 1 List.mem_cons_self
      · rintro rfl
        exact h (-1) List.mem_cons_self
    have hrest := ih (fun n hm => h n (List.mem_cons_of_mem _ hm)) d
    refine ⟨?_, ?_⟩
    · show countBehind (countAfter d line) lines = d
      rw [hline, hrest.1]
    · rw [peak, hline, hrest.2]
      exact Nat.max_self d

theorem Rises.label_cons {k : Nat} {lines : List Line} (h : Rises k lines) (name : String) :
    Rises k (.label name :: lines) := by
  intro d
  refine ⟨(h d).1, ?_⟩
  show max d (peak d lines) = d + k
  rw [(h d).2]
  omega

/-- what lies between saving an operand and taking it back rises one higher -/
theorem Rises.saved {k : Nat} {lines : List Line} (h : Rises k lines) :
    Rises (k + 1) (Fragment.save ++ lines ++ Fragment.restoreLeft) := by
  intro d
  have hsave : countBehind d Fragment.save = d + 1 ∧ peak d Fragment.save = d + 1 := by
    refine ⟨rfl, ?_⟩
    show max d (max (d + 1) (d + 1)) = d + 1
    omega
  have hrestore : countBehind (d + 1) Fragment.restoreLeft = d ∧
      peak (d + 1) Fragment.restoreLeft = d + 1 := by
    refine ⟨rfl, ?_⟩
    show max (d + 1) (max (d + 1) d) = d + 1
    omega
  rw [countBehind_append, countBehind_append, peak_append, peak_append, countBehind_append, hsave.1,
    hsave.2, (h _).1, (h _).2, hrestore.1, hrestore.2]
  omega

end Assembly

namespace Plan

variable {plan : Plan}

theorem rises_combine (op : Operator) : Rises 0 (Fragment.combine op) :=
  rises_zero fun n => by cases op <;> simp [Fragment.combine, code]

/-- **The code of an expression** never has more operands on the stack than the expression is deep. -/
theorem rises_valueCode {e : Expr} {code : List Line} (h : plan.valueCode e = .ok code) :
    Rises e.stackDepth code := by
  induction e generalizing code with
  | int n =>
    obtain rfl := Except.ok.inj h
    exact rises_zero fun k => by simp [Fragment.loadInt, Assembly.code]
  | float x => cases h
  | text s => cases h
  | var name =>
    obtain ⟨-, -, rfl⟩ := valueCode_var_ok h
    exact rises_zero fun k => by simp [Fragment.loadVar, Assembly.code]
  | group e ih => exact ih h
  | binary op left right ihl ihr =>
    obtain ⟨first, second, hfirst, hsecond, rfl⟩ := valueCode_binary_ok h
    have hall := (ihl hfirst).append ((ihr hsecond).saved.append (rises_combine op))
    rw [Nat.max_zero] at hall
    rw [Expr.stackDepth]
    simpa only [List.append_assoc] using hall
  | not e ih =>
    obtain ⟨first, hfirst, rfl⟩ := valueCode_not_ok h
    have hnegate : Rises 0 Fragment.negate :=
      rises_zero fun k => by simp [Fragment.negate, Assembly.code]
    have hall := (ih hfirst).append hnegate
    rwa [Nat.max_zero] at hall
  | round e => cases h

theorem rises_writeBytes (bytes : List UInt8) : Rises 0 (bytes.flatMap Fragment.writeByte) :=
  rises_zero fun n => by simp [Fragment.writeByte, code]

theorem rises_assignCode {name : String} {value : Expr} {code : List Line}
    (h : plan.assignCode name value = .ok code) : Rises value.stackDepth code := by
  obtain ⟨-, ⟨text, e, hlit, -, rfl⟩ | ⟨-, -, first, hfirst, rfl⟩⟩ := assignCode_ok h
  · rw [stackDepth_of_literal? hlit]
    exact rises_zero fun n => by simp [Fragment.storeAddress, Assembly.code]
  · have hstore : Rises 0 (Fragment.storeVar (slotLabel name) .result) :=
      rises_zero fun n => by simp [Fragment.storeVar, Assembly.code]
    have hall := (rises_valueCode hfirst).append hstore
    rwa [Nat.max_zero] at hall

theorem rises_printCode {n : Nat} {value : Expr} {code : List Line}
    (h : plan.printCode n value = .ok code) : Rises value.stackDepth code := by
  obtain ⟨text, hlit, rfl⟩ | ⟨name, -, -, ht, rfl⟩ | ⟨-, -, first, hfirst, rfl⟩ := printCode_ok h
  · rw [stackDepth_of_literal? hlit]
    exact rises_writeBytes _
  · rw [stackDepth_of_ungrouped_var (textVariable?_eq_some ht).1]
    exact rises_zero fun n => by simp [Fragment.writeTextVar, Assembly.code]
  · have hcall : Rises 0 (Fragment.callPrintInt .result) :=
      rises_zero fun n => by simp [Fragment.callPrintInt, Assembly.code]
    have hall := (rises_valueCode hfirst).append hcall
    rwa [Nat.max_zero] at hall

theorem rises_branch (target : String) : Rises 0 (Fragment.branchIfFalse .result target) :=
  rises_zero fun n => by simp [Fragment.branchIfFalse, code]

theorem rises_jump (target : String) : Rises 0 (Fragment.jump target) :=
  rises_zero fun n => by simp [Fragment.jump, code]

theorem rises_label (name : String) : Rises 0 [.label name] := rises_zero fun n => by simp

mutual

theorem rises_stmtCode {n : Nat} {code : List Line} : (s : Stmt) → plan.stmtCode n s = .ok code →
    Rises s.stackDepth code
  | .assign name value => rises_assignCode
  | .print value => fun h => by
    obtain ⟨first, hfirst, rfl⟩ := stmtCode_print_ok h
    have hall := (rises_printCode hfirst).append (rises_writeBytes [10])
    rwa [Nat.max_zero] at hall
  | .ite condition body none => fun h => by
    obtain ⟨test, first, htest, hfirst, rfl⟩ := stmtCode_ite_none_ok h
    have hlabels : Rises 0 [.label (controlLabel n), .label (controlLabel (n + 1))] :=
      rises_zero fun k => by simp
    have hall := ((((rises_valueCode htest).append (rises_branch (controlLabel n))).append
      (rises_blockCode body hfirst)).append (rises_jump (controlLabel (n + 1)))).append hlabels
    rw [Stmt.stackDepth]
    simpa only [Nat.max_zero] using hall
  | .ite condition body (some other) => fun h => by
    obtain ⟨test, first, second, htest, hfirst, hsecond, rfl⟩ := stmtCode_ite_some_ok h
    have hall := (((((rises_valueCode htest).append (rises_branch (controlLabel n))).append
      (rises_blockCode body hfirst)).append (rises_jump (controlLabel (n + 1)))).append
      ((rises_blockCode other hsecond).label_cons (controlLabel n))).append
      (rises_label (controlLabel (n + 1)))
    rw [Stmt.stackDepth]
    simpa only [Nat.max_zero, Nat.max_assoc] using hall
  | .while condition body => fun h => by
    obtain ⟨test, loop, htest, hloop, rfl⟩ := stmtCode_while_ok h
    have hall := ((((((rises_valueCode htest).label_cons (controlLabel n)).append
      (rises_branch (controlLabel (n + 1)))).append (rises_blockCode body hloop)).append
      (rises_jump (controlLabel n))).append (rises_label (controlLabel (n + 1))))
    rw [Stmt.stackDepth]
    simpa only [Nat.max_zero] using hall
  | .block body => fun h => rises_blockCode body h

theorem rises_blockCode {n : Nat} {code : List Line} : (b : Block) →
    plan.blockCode n b = .ok code → Rises (Stmt.stackDepthBlock b) code
  | [] => fun h => by
    obtain rfl := Except.ok.inj h
    exact fun d => ⟨rfl, rfl⟩
  | s :: ss => fun h => by
    obtain ⟨first, rest, hfirst, hrest, rfl⟩ := blockCode_cons_ok h
    exact (rises_stmtCode s hfirst).append (rises_blockCode ss hrest)

end

theorem rises_supplement (plan : Plan) (n : Nat) : Rises 0 (plan.supplement n) := by
  have hprint : ∀ k, .instr (.addi .stack .stack k) ∉ Fragment.printInt := by
    simp [Fragment.printInt, code]
  have htrap : ∀ k, .instr (.addi .stack .stack k) ∉ Fragment.divisionTrap := by
    simp [Fragment.divisionTrap, Fragment.writeByte, code]
  refine rises_zero fun k hm => ?_
  simp [supplement, hprint, htrap, Fragment.literal, Fragment.variableSlot,
    Fragment.runtimeData] at hm

/-- **The highest count along a listing** is the depth of its program. -/
theorem peak_listing {p : Program} {lines : List Line} (h : p.compile = .ok lines) :
    peak 0 lines = p.depth := by
  obtain ⟨statements, hs, rfl⟩ := listing_ok h
  have hstart : Rises 0 Fragment.programStart :=
    rises_zero fun n => by simp [Fragment.programStart]
  have hend : Rises 0 Fragment.programEnd :=
    rises_zero fun n => by simp [Fragment.programEnd, code]
  have hall := ((hstart.append (rises_blockCode p hs)).append hend).append
    (rises_supplement p.plan (max 1 (Stmt.stackDepthBlock p)))
  rw [(hall 0).2, Program.depth, ← stackDepthBlock_eq]
  omega

end Plan

end TinyScript
