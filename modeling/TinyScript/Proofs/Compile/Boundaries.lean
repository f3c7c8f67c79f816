import TinyScript.Proofs.Compile.Expression
import TinyScript.Proofs.Machine.Text

/-!
# Where the code of statements lies

The code of a statement lies in memory from an address on, and inside of it that of its expression and of
its blocks.

* `Plan.boundaries`        the addresses at which statements begin and end
* `Layout.StmtAt`          the code of a statement lies at an address, and the statements inside it begin
                           and end where they should
* `BlockAt.cons`           what lies where in the code of a block
* `StmtAt.assign`, …       what lies where in the code of each kind of statement
-/

namespace TinyScript

open Assembly

/-! ### Addresses between statements -/

namespace Plan

/-- the words that code takes, if there is code -/
def span : Except Failure (List Line) → Nat
  | .ok code => size code
  | .error _ => 0

mutual

/-- The addresses at which a statement begins and at which the statements inside it begin and end, if its
code lies at `a`.  A block lies behind the branch on its condition, and the block for the other case behind
a jump. -/
def boundaries (plan : Plan) (n a : Nat) : Stmt → List Nat
  | .assign _ _ | .print _ => [a]
  | .ite condition body none =>
    a :: plan.blockBoundaries (n + 2) (a + span (plan.valueCode condition) + 1) body
  | .ite condition body (some other) =>
    let start := a + span (plan.valueCode condition) + 1
    a :: plan.blockBoundaries (n + 2) start body ++
      plan.blockBoundaries (n + 2 + plan.labelCountBlock body)
        (start + span (plan.blockCode (n + 2) body) + 1) other
  | .while condition body =>
    a :: plan.blockBoundaries (n + 2) (a + span (plan.valueCode condition) + 1) body
  | .block body => plan.blockBoundaries n a body

/-- the same for the statements of a block, and the address behind the last of them -/
def blockBoundaries (plan : Plan) (n a : Nat) : Block → List Nat
  | [] => [a]
  | s :: ss => plan.boundaries n a s ++
      plan.blockBoundaries (n + plan.labelCount s) (a + span (plan.stmtCode n s)) ss

end

variable {plan : Plan} {n a x : Nat} {code : List Line}

theorem start_mem_blockBoundaries (plan : Plan) (n a : Nat) (b : Block) :
    a ∈ plan.blockBoundaries n a b := by
  match b with
  | [] => exact List.mem_singleton_self a
  | .assign _ _ :: _ | .print _ :: _ | .ite _ _ none :: _ | .ite _ _ (some _) :: _
  | .while _ _ :: _ => exact List.mem_append_left _ List.mem_cons_self
  | .block b :: _ =>
    exact List.mem_append_left _ (start_mem_blockBoundaries plan n a b)

mutual

/-- the statements inside a statement begin and end inside its code -/
theorem boundaries_bounds {n a : Nat} {code : List Line} : (s : Stmt) →
    plan.stmtCode n s = .ok code → x ∈ plan.boundaries n a s → a ≤ x ∧ x ≤ a + size code
  | .assign name value => fun _ hx => by
    rw [boundaries, List.mem_singleton] at hx
    omega
  | .print value => fun _ hx => by
    rw [boundaries, List.mem_singleton] at hx
    omega
  | .ite condition body none => fun h hx => by
    obtain ⟨test, first, htest, hfirst, rfl⟩ := stmtCode_ite_none_ok h
    rw [boundaries, htest, List.mem_cons] at hx
    rcases hx with rfl | hx
    · omega
    · have hb := blockBoundaries_bounds body hfirst hx
      simp only [span, size_append, Fragment.branchIfFalse, size_code, List.length_singleton] at hb ⊢
      omega
  | .ite condition body (some other) => fun h hx => by
    obtain ⟨test, first, second, htest, hfirst, hsecond, rfl⟩ := stmtCode_ite_some_ok h
    rw [boundaries, htest, hfirst, List.mem_append, List.mem_cons] at hx
    rcases hx with (rfl | hx) | hx
    · omega
    · have hb := blockBoundaries_bounds body hfirst hx
      simp only [span, size_append, size_cons, Fragment.branchIfFalse, size_code,
        List.length_singleton] at hb ⊢
      omega
    · have hb := blockBoundaries_bounds other hsecond hx
      simp only [span, size_append, size_cons, Fragment.branchIfFalse, Fragment.jump, size_code,
        List.length_singleton, Line.size] at hb ⊢
      omega
  | .while condition body => fun h hx => by
    obtain ⟨test, loop, htest, hloop, rfl⟩ := stmtCode_while_ok h
    rw [boundaries, htest, List.mem_cons] at hx
    rcases hx with rfl | hx
    · omega
    · have hb := blockBoundaries_bounds body hloop hx
      simp only [span, size_append, size_cons, Fragment.branchIfFalse, size_code,
        List.length_singleton, Line.size] at hb ⊢
      omega
  | .block body => fun h hx => blockBoundaries_bounds body h hx

theorem blockBoundaries_bounds {n a : Nat} {code : List Line} : (b : Block) →
    plan.blockCode n b = .ok code → x ∈ plan.blockBoundaries n a b → a ≤ x ∧ x ≤ a + size code
  | [] => fun _ hx => by
    rw [blockBoundaries, List.mem_singleton] at hx
    omega
  | s :: ss => fun h hx => by
    obtain ⟨first, rest, hfirst, hrest, rfl⟩ := blockCode_cons_ok h
    rw [blockBoundaries, hfirst, List.mem_append] at hx
    rw [size_append]
    rcases hx with hx | hx
    · have hb := boundaries_bounds s hfirst hx
      omega
    · have hb := blockBoundaries_bounds ss hrest hx
      rw [span] at hb
      omega

end

end Plan

/-! ### Code at an address -/

namespace Assembly.Layout

variable {L : Layout} {n a b : Nat}

/-- The code of an expression lies from `a` to `b`, and no statement begins or ends inside of it. -/
structure ValueAt (L : Layout) (a : Nat) (e : Expr) (b : Nat) : Prop where
  code : ∃ code, L.plan.valueCode e = .ok code ∧ Placed L.image a code ∧ b = a + size code
  quiet : L.Quiet a b L.top
  depth : e.stackDepth ≤ L.stackWords

/-- The code of a statement lies from `a` to `b`, and inside of it no statements begin and end but its
own. -/
structure StmtAt (L : Layout) (n a : Nat) (s : Stmt) (b : Nat) : Prop where
  code : ∃ code, L.plan.stmtCode n s = .ok code ∧ Placed L.image a code ∧ b = a + size code
  inside : ∀ x, a ≤ x → x < b → L.boundary x → x ∈ L.plan.boundaries n a s
  depth : s.stackDepth ≤ L.stackWords

/-- the same for the statements of a block -/
structure BlockAt (L : Layout) (n a : Nat) (body : Block) (b : Nat) : Prop where
  code : ∃ code, L.plan.blockCode n body = .ok code ∧ Placed L.image a code ∧ b = a + size code
  inside : ∀ x, a ≤ x → x < b → L.boundary x → x ∈ L.plan.blockBoundaries n a body
  depth : Stmt.stackDepthBlock body ≤ L.stackWords

theorem BlockAt.eq_of_nil (h : L.BlockAt n a [] b) : b = a := by
  obtain ⟨code, hc, -, rfl⟩ := h.code
  obtain rfl := Except.ok.inj hc
  rfl

theorem BlockAt.cons {s : Stmt} {ss : Block} (h : L.BlockAt n a (s :: ss) b) :
    ∃ c, L.StmtAt n a s c ∧ L.BlockAt (n + L.plan.labelCount s) c ss b := by
  obtain ⟨code, hc, hp, rfl⟩ := h.code
  obtain ⟨first, rest, hfirst, hrest, rfl⟩ := Plan.blockCode_cons_ok hc
  rw [placed_append] at hp
  have hsize : a + size (first ++ rest) = a + size first + size rest := by
    rw [size_append, Nat.add_assoc]
  have hmem : ∀ x, a ≤ x → x < a + size first + size rest → L.boundary x →
      x ∈ L.plan.boundaries n a s ∨
        x ∈ L.plan.blockBoundaries (n + L.plan.labelCount s) (a + size first) ss := by
    intro x hx hx' hb
    have hm := h.inside x hx (hsize ▸ hx') hb
    rw [Plan.blockBoundaries, hfirst] at hm
    exact List.mem_append.mp hm
  have hdepth : max s.stackDepth (Stmt.stackDepthBlock ss) ≤ L.stackWords := h.depth
  refine ⟨a + size first, ⟨⟨first, hfirst, hp.1, rfl⟩, fun x hx hx' hb => ?_, by omega⟩,
    ⟨⟨rest, hrest, hp.2, hsize⟩, fun x hx hx' hb => ?_, by omega⟩⟩
  · rcases hmem x hx (by omega) hb with hm | hm
    · exact hm
    · have hle := Plan.blockBoundaries_bounds ss hrest hm
      omega
  · rcases hmem x (by omega) (hsize ▸ hx') hb with hm | hm
    · -- where the first statement ends, the rest begins
      have hle := Plan.boundaries_bounds s hfirst hm
      obtain rfl : x = a + size first := by omega
      exact Plan.start_mem_blockBoundaries _ _ _ _
    · exact hm

theorem StmtAt.block {body : Block} (h : L.StmtAt n a (.block body) b) : L.BlockAt n a body b :=
  ⟨h.code, h.inside, h.depth⟩

/-- inside of an assignment or a print no statement begins or ends -/
theorem StmtAt.quiet {s : Stmt} (h : L.StmtAt n a s b) (hs : L.plan.boundaries n a s = [a]) :
    L.Quiet a b L.top := by
  refine ⟨fun _ => rfl, fun x hx hx' hb => ?_⟩
  have hm := h.inside x (Nat.le_of_lt hx) hx' hb
  rw [hs, List.mem_singleton] at hm
  omega

theorem StmtAt.assign {name : String} {value : Expr} (h : L.StmtAt n a (.assign name value) b) :
    name ∈ L.plan.names ∧
      ((∃ text e, value.literal? = some text ∧ L.plan.entryFor? name text = some e ∧ b = a + 3 ∧
          Placed L.image a (Fragment.storeAddress (Plan.slotLabel name) e.label)) ∨
        (value.literal? = none ∧ L.plan.isTextual name = false ∧
          ∃ c, L.ValueAt a value c ∧ b = c + 2 ∧
            Placed L.image c (Fragment.storeVar (Plan.slotLabel name) .result))) := by
  obtain ⟨code, hc, hp, rfl⟩ := h.code
  obtain ⟨hn, ⟨text, e, hlit, he, rfl⟩ | ⟨hlit, ht, first, hfirst, rfl⟩⟩ :=
    Plan.assignCode_ok hc
  · exact ⟨hn, .inl ⟨text, e, hlit, he, rfl, hp⟩⟩
  · have hq := h.quiet rfl
    rw [placed_append] at hp
    rw [size_append] at hq ⊢
    exact ⟨hn, .inr ⟨hlit, ht, _, ⟨⟨first, hfirst, hp.1, rfl⟩, hq.start (by omega), h.depth⟩,
      (Nat.add_assoc _ _ _).symm, hp.2⟩⟩

theorem StmtAt.print {value : Expr} (h : L.StmtAt n a (.print value) b) :
    ∃ c, b = c + 2 ∧ Placed L.image c Plan.newline ∧
      ((∃ text, value.literal? = some text ∧ c = a + 2 * text.toUTF8.toList.length ∧
          Placed L.image a (text.toUTF8.toList.flatMap Fragment.writeByte)) ∨
        (∃ name ∈ L.plan.names, L.plan.isTextual name = true ∧ value.ungrouped = .var name ∧
          c = a + 11 ∧ Placed L.image a (Fragment.writeTextVar (Plan.slotLabel name)
            (Plan.controlLabel n) (Plan.controlLabel (n + 1)))) ∨
        (∃ d, L.ValueAt a value d ∧ c = d + 2 ∧
          Placed L.image d (Fragment.callPrintInt .result))) := by
  obtain ⟨code, hc, hp, rfl⟩ := h.code
  have hq := h.quiet rfl
  obtain ⟨first, hfirst, rfl⟩ := Plan.stmtCode_print_ok hc
  rw [placed_append] at hp
  rw [size_append] at hq ⊢
  refine ⟨a + size first, (Nat.add_assoc _ _ _).symm, hp.2, ?_⟩
  obtain ⟨text, hlit, rfl⟩ | ⟨name, hn, -, ht, rfl⟩ | ⟨-, -, value', hvalue, rfl⟩ :=
    Plan.printCode_ok hfirst
  · exact .inl ⟨text, hlit, by rw [size_writeBytes], hp.1⟩
  · obtain ⟨hv, hx⟩ := Plan.textVariable?_eq_some ht
    exact .inr (.inl ⟨name, hn, hx, hv, by rw [size_writeTextVar], hp.1⟩)
  · have hp1 := hp.1
    rw [placed_append] at hp1
    rw [size_append] at hq ⊢
    exact .inr (.inr ⟨_, ⟨⟨value', hvalue, hp1.1, rfl⟩, hq.start (by omega), h.depth⟩,
      (Nat.add_assoc _ _ _).symm, hp1.2⟩)

/-- A conditional without a block for the other case has the code of one with an empty block, and no more
statements inside of it. -/
theorem stmtCode_ite_ok {plan : Plan} {code : List Line} {condition : Expr} {body : Block}
    {other : Option Block} (h : plan.stmtCode n (.ite condition body other) = .ok code) :
    ∃ test first second k, plan.valueCode condition = .ok test ∧
      plan.blockCode (n + 2) body = .ok first ∧ plan.blockCode k (other.getD []) = .ok second ∧
      code = test ++ Fragment.branchIfFalse .result (Plan.controlLabel n) ++ first ++
        Fragment.jump (Plan.controlLabel (n + 1)) ++ [.label (Plan.controlLabel n)] ++ second ++
        [.label (Plan.controlLabel (n + 1))] ∧
      ∀ x ∈ plan.boundaries n a (.ite condition body other), x = a ∨
        x ∈ plan.blockBoundaries (n + 2) (a + size test + 1) body ∨
        x ∈ plan.blockBoundaries k (a + size test + 1 + size first + 1) (other.getD []) := by
  cases other with
  | none =>
    obtain ⟨test, first, htest, hfirst, rfl⟩ := Plan.stmtCode_ite_none_ok h
    refine ⟨test, first, [], 0, htest, hfirst, rfl, by simp, fun x hx => ?_⟩
    rw [Plan.boundaries, htest] at hx
    rcases List.mem_cons.mp hx with rfl | hx
    · exact .inl rfl
    · exact .inr (.inl hx)
  | some other =>
    obtain ⟨test, first, second, htest, hfirst, hsecond, rfl⟩ := Plan.stmtCode_ite_some_ok h
    refine ⟨test, first, second, _, htest, hfirst, hsecond, by simp, fun x hx => ?_⟩
    rw [Plan.boundaries, htest, hfirst] at hx
    rcases List.mem_append.mp hx with hx | hx
    · rcases List.mem_cons.mp hx with rfl | hx
      · exact .inl rfl
      · exact .inr (.inl hx)
    · exact .inr (.inr hx)

theorem stackDepth_ite (condition : Expr) (body : Block) (other : Option Block) :
    (Stmt.ite condition body other).stackDepth = max condition.stackDepth
      (max (Stmt.stackDepthBlock body) (Stmt.stackDepthBlock (other.getD []))) := by
  cases other with
  | none =>
    show max _ _ = max _ (max _ 0)
    rw [Nat.max_zero]
  | some other => rfl

/-- A conditional: its condition, a branch, its block, a jump, and perhaps a block for the other case. -/
theorem StmtAt.ite {condition : Expr} {body : Block} {other : Option Block}
    (h : L.StmtAt n a (.ite condition body other) b) :
    ∃ c d k, L.ValueAt a condition c ∧
      L.image.code[c]? = some (some (.branch .eq .result .zero (Plan.controlLabel n))) ∧
      L.BlockAt (n + 2) (c + 1) body d ∧
      L.image.code[d]? = some (some (.jal .zero (Plan.controlLabel (n + 1)))) ∧
      L.image.address? (Plan.controlLabel n) = some (d + 1) ∧
      L.BlockAt k (d + 1) (other.getD []) b ∧
      L.image.address? (Plan.controlLabel (n + 1)) = some b := by
  obtain ⟨code, hc, hp, rfl⟩ := h.code
  obtain ⟨test, first, second, k, htest, hfirst, hsecond, rfl, hmem⟩ := stmtCode_ite_ok hc
  have hinside := h.inside
  have hdepth := h.depth
  rw [stackDepth_ite] at hdepth
  simp only [Fragment.branchIfFalse, Fragment.jump, placed_append, size_append, size_code, size_cons,
    size_nil, List.length_singleton, Line.size, Nat.add_zero, ← Nat.add_assoc] at hp hinside ⊢
  obtain ⟨⟨⟨⟨⟨⟨htest', hbranch⟩, hbody⟩, hjump⟩, helse⟩, hother⟩, hend⟩ := hp
  have hsub : ∀ x, a ≤ x → x < a + size test + 1 + size first + 1 + size second → L.boundary x →
      x = a ∨ x ∈ L.plan.blockBoundaries (n + 2) (a + size test + 1) body ∧
          x ≤ a + size test + 1 + size first ∧ a + size test + 1 ≤ x ∨
        x ∈ L.plan.blockBoundaries k (a + size test + 1 + size first + 1) (other.getD []) ∧
          a + size test + 1 + size first + 1 ≤ x := by
    intro x hx hx' hb
    rcases hmem x (hinside x hx hx' hb) with rfl | hm | hm
    · exact .inl rfl
    · have hle := Plan.blockBoundaries_bounds body hfirst hm
      exact .inr (.inl ⟨hm, hle.2, hle.1⟩)
    · have hle := Plan.blockBoundaries_bounds _ hsecond hm
      exact .inr (.inr ⟨hm, hle.1⟩)
  refine ⟨a + size test, a + size test + 1 + size first, k,
    ⟨⟨test, htest, htest', rfl⟩, ⟨fun _ => rfl, fun x hx hx' hb => ?_⟩, by omega⟩, hbranch.1,
    ⟨⟨first, hfirst, hbody, rfl⟩, fun x hx hx' hb => ?_, by omega⟩, hjump.1, helse.1,
    ⟨⟨second, hsecond, hother, rfl⟩, fun x hx hx' hb => ?_, by omega⟩, hend.1⟩
  · rcases hsub x (by omega) (by omega) hb with h | h | h <;> omega
  · rcases hsub x (by omega) (by omega) hb with h | h | h
    · omega
    · exact h.1
    · omega
  · rcases hsub x (by omega) (by omega) hb with h | h | h
    · omega
    · omega
    · exact h.1

/-- A loop: its condition, a branch, its block, and a jump back. -/
theorem StmtAt.while {condition : Expr} {body : Block}
    (h : L.StmtAt n a (.while condition body) b) :
    ∃ c d, L.ValueAt a condition c ∧
      L.image.code[c]? = some (some (.branch .eq .result .zero (Plan.controlLabel (n + 1)))) ∧
      L.BlockAt (n + 2) (c + 1) body d ∧
      L.image.code[d]? = some (some (.jal .zero (Plan.controlLabel n))) ∧
      L.image.address? (Plan.controlLabel n) = some a ∧
      L.image.address? (Plan.controlLabel (n + 1)) = some b := by
  obtain ⟨code, hc, hp, rfl⟩ := h.code
  obtain ⟨test, loop, htest, hloop, rfl⟩ := Plan.stmtCode_while_ok hc
  have hinside := h.inside
  have hdepth : max condition.stackDepth (Stmt.stackDepthBlock body) ≤ L.stackWords := h.depth
  rw [Plan.boundaries, htest] at hinside
  simp only [Fragment.branchIfFalse, Fragment.jump, List.cons_append, Placed, placed_append, size_append,
    size_code, size_cons, size_nil, List.length_singleton, Line.size, Plan.span, Nat.add_zero,
    Nat.zero_add, ← Nat.add_assoc] at hp hinside ⊢
  obtain ⟨hstart, ⟨⟨⟨htest', hbranch⟩, hbody⟩, hjump⟩, hend, -⟩ := hp
  refine ⟨a + size test, a + size test + 1 + size loop,
    ⟨⟨test, htest, htest', rfl⟩, ⟨fun _ => rfl, fun x hx hx' hb => ?_⟩, by omega⟩, hbranch.1,
    ⟨⟨loop, hloop, hbody, rfl⟩, fun x hx hx' hb => ?_, by omega⟩, hjump.1, hstart, hend⟩
  · rcases List.mem_cons.mp (hinside x (by omega) (by omega) hb) with hm | hm
    · omega
    · have hle := Plan.blockBoundaries_bounds body hloop hm
      omega
  · rcases List.mem_cons.mp (hinside x (by omega) (by omega) hb) with hm | hm
    · omega
    · exact hm

end Assembly.Layout

end TinyScript
