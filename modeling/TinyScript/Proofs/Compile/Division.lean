import TinyScript.Assembly.Fragment
import TinyScript.Proofs.Machine.Placement
import TinyScript.Proofs.Machine.Reaches
import TinyScript.Proofs.Value.Quotient

/-!
# Division in a run and in a listing

A run answers a division of integers with a double if the quotient is no integer, and the code of a division
then goes to the trap.

* `Machine.BranchesWithin`   one of the next instructions is a branch to a label, and it is taken
* `division_runs_through`    what the four instructions of a division do
* `division_agrees`          a run and a listing draw the same line, and have the same quotient
-/

namespace TinyScript

open Assembly

namespace Assembly.Machine

variable {image : Image} {m m' : Machine}

/-- the next instruction is a branch to the label, and it is taken -/
def Branches (image : Image) (label : String) (m : Machine) : Prop :=
  ∃ test r r', image.code[m.pc]? = some (some (.branch test r r' label)) ∧
    holds test (m.get r) (m.get r') = true

/-- one of the next `n` instructions is a branch to the label, and it is taken -/
def BranchesWithin (image : Image) (label : String) (n : Nat) (m : Machine) : Prop :=
  ∃ j < n, ∃ c, run image j m = .running c ∧ Branches image label c

theorem run_succ (h : step image m = .running m') (n : Nat) : run image (n + 1) m = run image n m' := by
  rw [run, h]

theorem branchesWithin_succ {label : String} {n : Nat} (h : step image m = .running m') :
    BranchesWithin image label (n + 1) m ↔
      Branches image label m ∨ BranchesWithin image label n m' := by
  constructor
  · rintro ⟨j, hj, c, hc, hbranch⟩
    cases j with
    | zero =>
      cases hc
      exact .inl hbranch
    | succ j =>
      rw [run_succ h] at hc
      exact .inr ⟨j, Nat.lt_of_succ_lt_succ hj, c, hc, hbranch⟩
  · rintro (hbranch | ⟨j, hj, c, hc, hbranch⟩)
    · exact ⟨0, Nat.succ_pos n, m, rfl, hbranch⟩
    · exact ⟨j + 1, Nat.succ_lt_succ hj, c, by rwa [run_succ h], hbranch⟩

theorem not_branchesWithin_zero {label : String} : ¬ BranchesWithin image label 0 m := by
  rintro ⟨j, hj, -⟩
  cases hj

section

variable {x n : Nat} {label : String} {r r' rd : Reg}

theorem step_alu {op : Alu} (hi : image.code[x]? = some (some (.alu op rd r r'))) :
    step image (m.goTo x) = .running ((m.set rd (compute op (m.get r) (m.get r'))).goTo (x + 1)) := by
  unfold step
  rw [pc_goTo, hi, ← Reaches.set_goTo_next]
  rfl

theorem branchesWithin_alu {op : Alu} (hi : image.code[x]? = some (some (.alu op rd r r'))) :
    BranchesWithin image label (n + 1) (m.goTo x) ↔
      BranchesWithin image label n ((m.set rd (compute op (m.get r) (m.get r'))).goTo (x + 1)) := by
  rw [branchesWithin_succ (step_alu hi), or_iff_right]
  rintro ⟨test, s, s', hbranch, -⟩
  cases hi.symm.trans hbranch

variable {test : Test} (hi : image.code[x]? = some (some (.branch test r r' label)))

include hi

theorem branchesWithin_of_taken (ht : holds test (m.get r) (m.get r') = true) :
    BranchesWithin image label (n + 1) (m.goTo x) :=
  ⟨0, Nat.succ_pos n, _, rfl, test, r, r', hi, ht⟩

variable (ht : holds test (m.get r) (m.get r') = false)

include ht

theorem step_branch : step image (m.goTo x) = .running (m.goTo (x + 1)) := by
  unfold step
  rw [pc_goTo, hi]
  exact if_neg (ne_true_of_eq_false ht)

theorem branchesWithin_branch :
    BranchesWithin image label (n + 1) (m.goTo x) ↔ BranchesWithin image label n (m.goTo (x + 1)) := by
  rw [branchesWithin_succ (step_branch hi ht), or_iff_right]
  rintro ⟨test', s, s', hbranch, hholds⟩
  cases hi.symm.trans hbranch
  exact ne_true_of_eq_false ht hholds

end

end Assembly.Machine

/-! ### The code of a division -/

section

open Machine

variable {image : Image} {x : Nat} (hp : Placed image x (Fragment.combine .div)) {m : Machine}
  (hz : m.get .zero = 0) {a b : Int32} (ha : m.get .left = a) (hb : m.get .result = b)

include hp hz ha hb

/-- The four instructions branch to the trap if the divisor is zero or if a remainder is left.  Otherwise
they put the quotient into the result register and change nothing else but the register for addresses. -/
theorem division_runs_through :
    (BranchesWithin image Fragment.trapLabel 4 (m.goTo x) ↔ ¬ Value.Divides b a) ∧
      (Value.Divides b a → run image 4 (m.goTo x) =
        .running (((m.set .address (a % b)).set .result (a / b)).goTo (x + 4))) := by
  have hfirst : image.code[x]? = _ := hp.code (k := 0) rfl
  have hsecond : image.code[x + 1]? = _ := hp.code (k := 1) rfl
  have hthird : image.code[x + 2]? = _ := hp.code (k := 2) rfl
  have hfourth : image.code[x + 3]? = _ := hp.code (k := 3) rfl
  rw [Value.divides_iff]
  by_cases hb0 : b = 0
  · refine ⟨iff_of_true (branchesWithin_of_taken hfirst ?_) fun h => h.1 hb0, fun h => absurd hb0 h.1⟩
    simp [holds, hb, hz, hb0]
  have hgoes : holds .eq (m.get .result) (m.get .zero) = false := by simp [holds, hb, hz, hb0]
  have hremainder : compute .rem (m.get .left) (m.get .result) = a % b := by rw [ha, hb]; rfl
  rw [branchesWithin_branch hfirst hgoes, run_succ (step_branch hfirst hgoes), branchesWithin_alu hsecond,
    run_succ (step_alu hsecond), hremainder]
  by_cases hrem : a % b = 0
  · have hgoes' : holds .ne ((m.set .address (a % b)).get .address) ((m.set .address (a % b)).get .zero) =
        false := by simp [holds, hz, hrem]
    have hquotient : compute .div ((m.set .address (a % b)).get .left)
        ((m.set .address (a % b)).get .result) = a / b := by simp [compute, ha, hb]
    rw [branchesWithin_branch hthird hgoes', run_succ (step_branch hthird hgoes'),
      branchesWithin_alu hfourth, run_succ (step_alu hfourth), hquotient]
    exact ⟨iff_of_false not_branchesWithin_zero (not_not_intro ⟨hb0, hrem⟩), fun _ => rfl⟩
  · refine ⟨iff_of_true (branchesWithin_of_taken hthird ?_) fun h => hrem h.2, fun h => absurd h.2 hrem⟩
    simp [holds, hz, hrem]

end

open Machine Value

/-- **Division is the same in a run and in a listing.**  A run divides two integers to an integer exactly if
the divisor is not zero and divides the dividend, and the code of a division stays clear of the trap in
exactly these cases.  Both then have the same quotient, which wraps around.  In all other cases the answer of
a run is a double. -/
theorem division_agrees (a b : Int32) :
    ((∃ q, apply .div (.int a) (.int b) = .ok (.int q)) ↔ Divides b a) ∧
    (¬ Divides b a → ∃ y, apply .div (.int a) (.int b) = .ok (.float y)) ∧
    ∀ image m, Placed image m.pc (Fragment.combine .div) →
      m.get .zero = 0 → m.get .left = a → m.get .result = b →
      (¬ BranchesWithin image Fragment.trapLabel (size (Fragment.combine .div)) m ↔ Divides b a) ∧
      (Divides b a → ∃ q m', apply .div (.int a) (.int b) = .ok (.int q) ∧
        q.toInt = (a.toInt / b.toInt).bmod (2 ^ 32) ∧
        run image (size (Fragment.combine .div)) m = .running m' ∧
        m'.pc = m.pc + size (Fragment.combine .div) ∧ m'.get .result = q ∧
        m'.memory = m.memory ∧ m'.output = m.output) := by
  refine ⟨⟨?_, fun h => ⟨_, apply_div_of_divides h⟩⟩, fun h => ⟨_, apply_div_of_not_divides h⟩,
    fun image m hp hz ha hb => ?_⟩
  · rintro ⟨q, hq⟩
    by_contra h
    cases hq.symm.trans (apply_div_of_not_divides h)
  obtain ⟨htrap, hrun⟩ := division_runs_through hp hz ha hb
  refine ⟨not_iff_comm.mp htrap.symm, fun h => ⟨a / b, _, apply_div_of_divides h, toInt_div_of_divides h,
    hrun h, rfl, ?_, ?_, ?_⟩⟩
  · simp
  · simp
  · simp

/-! ### The least number -/

/-- the code of a division, and a trap behind it -/
def divisionImage : Image :=
  .ofLines (Fragment.combine .div ++ [.label Fragment.trapLabel, .instr .ebreak])

/-- a machine with the two operands of a division in their registers -/
def dividing (a b : Int32) : Machine :=
  let start : Machine := ⟨0, Vector.replicate 32 0, divisionImage.words, .empty⟩
  (start.set .left a).set .result b

theorem placed_division : Placed divisionImage 0 (Fragment.combine .div) :=
  (placed_append.mp (placed_ofLines (by decide))).1

/-- the least number divided by minus one, and a quotient that is no integer -/
theorem division_least :
    (∃ m', apply .div (.int (-2147483648)) (.int (-1)) = .ok (.int (-2147483648)) ∧
      run divisionImage 4 (dividing (-2147483648) (-1)) = .running m' ∧
      m'.get .result = -2147483648) ∧
    (∃ y, apply .div (.int 7) (.int 2) = .ok (.float y)) ∧
    BranchesWithin divisionImage Fragment.trapLabel 4 (dividing 7 2) := by
  obtain ⟨-, -, hcode⟩ := division_agrees (-2147483648) (-1)
  obtain ⟨-, hquotient⟩ := hcode divisionImage (dividing (-2147483648) (-1)) placed_division rfl rfl rfl
  obtain ⟨q, m', happly, hq, hrun, -, hresult, -⟩ := hquotient (by decide)
  obtain rfl : q = -2147483648 := Int32.toInt_inj.mp (hq.trans (by decide))
  obtain ⟨-, hinexact, hcode'⟩ := division_agrees 7 2
  obtain ⟨htrap, -⟩ := hcode' divisionImage (dividing 7 2) placed_division rfl rfl rfl
  exact ⟨⟨m', happly, hrun, hresult⟩, hinexact (by decide), not_not.mp (mt htrap.mp (by decide))⟩

end TinyScript
