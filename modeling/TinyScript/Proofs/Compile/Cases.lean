import TinyScript.Program.Compile
import TinyScript.Proofs.Except
import TinyScript.Proofs.Plan.Storage

/-!
# What the compiler accepts

One statement for each part of the compiler: when there is code, what the code is and what the plan
must have contained for it.  Nothing after this module opens the compiler again.

* `Plan.assignCode_ok`, `Plan.printCode_ok`      the two ways to assign and the three ways to print
* `Plan.stmtCode_print_ok`, …, `Plan.stmtCode_while_ok`   the kinds of statements
* `Plan.blockCode_cons_ok`, `Plan.listing_ok`              blocks and the whole listing
* `Plan.Accepts`                                           there is code for a statement
-/

namespace TinyScript

namespace Plan

open Assembly

variable {plan : Plan} {name slot : String} {value : Expr} {code : List Line} {n : Nat}

theorem slot_ok (h : plan.slot name = .ok slot) : name ∈ plan.names ∧ slot = slotLabel name := by
  unfold Plan.slot at h
  split at h
  · next hn => exact ⟨Storage.mem_names.mpr hn, (Except.ok.inj h).symm⟩
  · cases h

theorem labelFor_ok {text label : String} (h : plan.labelFor name text = .ok label) :
    ∃ e, plan.entryFor? name text = some e ∧ e.label = label := by
  unfold labelFor at h
  split at h
  · next e he => exact ⟨e, he, Except.ok.inj h⟩
  · cases h

theorem textVariable?_eq_some (h : plan.textVariable? value = some name) :
    value.ungrouped = .var name ∧ plan.isTextual name = true := by
  unfold textVariable? at h
  split at h
  · next x hx =>
    split at h
    · next ht => exact Option.some.inj h ▸ ⟨hx, ht⟩
    · cases h
  · cases h

/-! ### Expressions -/

theorem valueCode_var_ok (h : plan.valueCode (.var name) = .ok code) :
    plan.isTextual name = false ∧ name ∈ plan.names ∧
      code = Fragment.loadVar (slotLabel name) := by
  rw [valueCode] at h
  split at h
  · cases h
  · next ht =>
    obtain ⟨slot, hslot, hcode⟩ := ok_of_bind h
    obtain ⟨hn, rfl⟩ := slot_ok hslot
    exact ⟨Bool.eq_false_iff.mpr ht, hn, (Except.ok.inj hcode).symm⟩

theorem valueCode_binary_ok {op : Operator} {left right : Expr}
    (h : plan.valueCode (.binary op left right) = .ok code) :
    ∃ first second, plan.valueCode left = .ok first ∧ plan.valueCode right = .ok second ∧
      code = first ++ Fragment.save ++ second ++ Fragment.restoreLeft ++ Fragment.combine op := by
  obtain ⟨first, hfirst, h⟩ := ok_of_bind h
  obtain ⟨second, hsecond, h⟩ := ok_of_bind h
  exact ⟨first, second, hfirst, hsecond, (Except.ok.inj h).symm⟩

theorem valueCode_not_ok (h : plan.valueCode (.not value) = .ok code) :
    ∃ first, plan.valueCode value = .ok first ∧ code = first ++ Fragment.negate := by
  obtain ⟨first, hfirst, h⟩ := ok_of_bind h
  exact ⟨first, hfirst, (Except.ok.inj h).symm⟩

/-! ### Assignments and prints -/

/-- a literal is stored by its label, any other value by its code in a variable that is no text -/
theorem assignCode_ok (h : plan.assignCode name value = .ok code) :
    name ∈ plan.names ∧
      ((∃ text e, value.literal? = some text ∧ plan.entryFor? name text = some e ∧
          code = Fragment.storeAddress (slotLabel name) e.label) ∨
        (value.literal? = none ∧ plan.isTextual name = false ∧
          ∃ first, plan.valueCode value = .ok first ∧
            code = first ++ Fragment.storeVar (slotLabel name) .result)) := by
  obtain ⟨slot, hslot, h⟩ := ok_of_bind h
  obtain ⟨hn, rfl⟩ := slot_ok hslot
  refine ⟨hn, ?_⟩
  cases hv : value.literal? with
  | some text =>
    rw [hv] at h
    obtain ⟨label, hlabel, h⟩ := ok_of_bind h
    obtain ⟨e, he, rfl⟩ := labelFor_ok hlabel
    exact .inl ⟨text, e, rfl, he, (Except.ok.inj h).symm⟩
  | none =>
    simp only [hv] at h
    split at h
    · cases h
    · next ht =>
      obtain ⟨first, hfirst, h⟩ := ok_of_bind h
      exact .inr ⟨rfl, Bool.eq_false_iff.mpr ht, first, hfirst, (Except.ok.inj h).symm⟩

/-- a literal is printed byte by byte, a text variable by its loop, a number by the routine -/
theorem printCode_ok (h : plan.printCode n value = .ok code) :
    (∃ text, value.literal? = some text ∧
        code = text.toUTF8.toList.flatMap Fragment.writeByte) ∨
      (∃ name ∈ plan.names, value.literal? = none ∧ plan.textVariable? value = some name ∧
        code = Fragment.writeTextVar (slotLabel name) (controlLabel n) (controlLabel (n + 1))) ∨
      (value.literal? = none ∧ plan.textVariable? value = none ∧
        ∃ first, plan.valueCode value = .ok first ∧
          code = first ++ Fragment.callPrintInt .result) := by
  unfold printCode at h
  split at h
  · next text hv => exact .inl ⟨text, hv, (Except.ok.inj h).symm⟩
  · next name hv ht =>
    obtain ⟨slot, hslot, h⟩ := ok_of_bind h
    obtain ⟨hn, rfl⟩ := slot_ok hslot
    exact .inr (.inl ⟨name, hn, hv, ht, (Except.ok.inj h).symm⟩)
  · next hv ht =>
    obtain ⟨first, hfirst, h⟩ := ok_of_bind h
    exact .inr (.inr ⟨hv, ht, first, hfirst, (Except.ok.inj h).symm⟩)

/-! ### Statements and blocks -/

theorem stmtCode_print_ok (h : plan.stmtCode n (.print value) = .ok code) :
    ∃ first, plan.printCode n value = .ok first ∧ code = first ++ newline := by
  obtain ⟨first, hfirst, h⟩ := ok_of_bind h
  exact ⟨first, hfirst, (Except.ok.inj h).symm⟩

theorem stmtCode_ite_none_ok {condition : Expr} {body : Block}
    (h : plan.stmtCode n (.ite condition body none) = .ok code) :
    ∃ test first, plan.valueCode condition = .ok test ∧ plan.blockCode (n + 2) body = .ok first ∧
      code = test ++ Fragment.branchIfFalse .result (controlLabel n) ++ first ++
        Fragment.jump (controlLabel (n + 1)) ++
        [.label (controlLabel n), .label (controlLabel (n + 1))] := by
  obtain ⟨test, htest, h⟩ := ok_of_bind h
  obtain ⟨first, hfirst, h⟩ := ok_of_bind h
  exact ⟨test, first, htest, hfirst, (Except.ok.inj h).symm⟩

theorem stmtCode_ite_some_ok {condition : Expr} {body other : Block}
    (h : plan.stmtCode n (.ite condition body (some other)) = .ok code) :
    ∃ test first second, plan.valueCode condition = .ok test ∧
      plan.blockCode (n + 2) body = .ok first ∧
      plan.blockCode (n + 2 + plan.labelCountBlock body) other = .ok second ∧
      code = test ++ Fragment.branchIfFalse .result (controlLabel n) ++ first ++
        Fragment.jump (controlLabel (n + 1)) ++ .label (controlLabel n) :: second ++
        [.label (controlLabel (n + 1))] := by
  obtain ⟨test, htest, h⟩ := ok_of_bind h
  obtain ⟨first, hfirst, h⟩ := ok_of_bind h
  obtain ⟨second, hsecond, h⟩ := ok_of_bind h
  exact ⟨test, first, second, htest, hfirst, hsecond, (Except.ok.inj h).symm⟩

theorem stmtCode_while_ok {condition : Expr} {body : Block}
    (h : plan.stmtCode n (.while condition body) = .ok code) :
    ∃ test loop, plan.valueCode condition = .ok test ∧ plan.blockCode (n + 2) body = .ok loop ∧
      code = .label (controlLabel n) :: test ++
        Fragment.branchIfFalse .result (controlLabel (n + 1)) ++ loop ++
        Fragment.jump (controlLabel n) ++ [.label (controlLabel (n + 1))] := by
  obtain ⟨test, htest, h⟩ := ok_of_bind h
  obtain ⟨loop, hloop, h⟩ := ok_of_bind h
  exact ⟨test, loop, htest, hloop, (Except.ok.inj h).symm⟩

theorem blockCode_cons_ok {s : Stmt} {ss : Block} (h : plan.blockCode n (s :: ss) = .ok code) :
    ∃ first rest, plan.stmtCode n s = .ok first ∧
      plan.blockCode (n + plan.labelCount s) ss = .ok rest ∧ code = first ++ rest := by
  obtain ⟨first, hfirst, h⟩ := ok_of_bind h
  obtain ⟨rest, hrest, h⟩ := ok_of_bind h
  exact ⟨first, rest, hfirst, hrest, (Except.ok.inj h).symm⟩

theorem listing_ok {p : Program} {lines : List Line} (h : plan.listing p = .ok lines) :
    ∃ statements, plan.blockCode plan.labels.allocated p = .ok statements ∧
      lines = Fragment.programStart ++ statements ++ Fragment.programEnd ++
        plan.supplement (max 1 (Stmt.stackDepthBlock p)) := by
  obtain ⟨statements, hs, h⟩ := ok_of_bind h
  exact ⟨statements, hs, (Except.ok.inj h).symm⟩

/-- there is code for the statement -/
def Accepts (plan : Plan) (s : Stmt) : Prop := ∃ n code, plan.stmtCode n s = .ok code

theorem accepts_of_blockCode {b : Block} (h : plan.blockCode n b = .ok code) :
    ∀ s ∈ b, plan.Accepts s := by
  induction b generalizing n code with
  | nil =>
    intro s hs
    cases hs
  | cons s ss ih =>
    obtain ⟨first, rest, hfirst, hrest, -⟩ := blockCode_cons_ok h
    intro t ht
    rcases List.mem_cons.mp ht with rfl | ht
    · exact ⟨n, first, hfirst⟩
    · exact ih hrest t ht

end Plan

end TinyScript
