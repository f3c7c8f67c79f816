import TinyScript.Proofs.Compile.Cases
import TinyScript.Proofs.Plan.Parts

/-!
# Programs without parentheses and bare blocks

Parentheses, blocks that stand by themselves and blocks with nothing in them for the other case are there
for the reader of a program only.  Without them a program has the same plan and the same listing.

* `Expr.bare`, `Program.bare`   the program without them
* `Program.plain_bare`          it has none
* `Program.bare_eq_self_iff`    exactly the programs that have none stay as they are
* `BareCases`                   what the bare form of a program keeps, constructor by constructor
* `Program.plan_bare`, `Program.compile_bare`   it keeps the plan, and the listing or the failure
-/

namespace TinyScript

/-! ## Bare programs -/

/-- the expression without parentheses -/
def Expr.bare : Expr → Expr
  | .int n => .int n
  | .float x => .float x
  | .text s => .text s
  | .var name => .var name
  | .group e => e.bare
  | .binary op left right => .binary op left.bare right.bare
  | .not e => .not e.bare
  | .round e => .round e.bare

/-- a block for the other case, if there is anything in it -/
def Stmt.otherwise? : Block → Option Block
  | [] => none
  | s :: ss => some (s :: ss)

mutual

/-- The statements in place of one.  Whether a block for the other case is empty is seen only when the blocks
inside it have been opened. -/
def Stmt.bare : Stmt → Block
  | .assign name value => [.assign name value.bare]
  | .print value => [.print value.bare]
  | .ite condition body none => [.ite condition.bare (Stmt.bareBlock body) none]
  | .ite condition body (some other) =>
    [.ite condition.bare (Stmt.bareBlock body) (Stmt.otherwise? (Stmt.bareBlock other))]
  | .while condition body => [.while condition.bare (Stmt.bareBlock body)]
  | .block body => Stmt.bareBlock body

def Stmt.bareBlock : Block → Block
  | [] => []
  | s :: ss => s.bare ++ Stmt.bareBlock ss

end

/-- the program without parentheses, bare blocks and empty blocks for the other case, at any depth -/
def Program.bare (p : Program) : Program := Stmt.bareBlock p

theorem bareBlock_append (xs ys : Block) :
    Stmt.bareBlock (xs ++ ys) = Stmt.bareBlock xs ++ Stmt.bareBlock ys := by
  induction xs with
  | nil => rfl
  | cons x xs ih => rw [List.cons_append, Stmt.bareBlock, ih, Stmt.bareBlock, List.append_assoc]

/-- What is to be shown so that `P` relates the bare form of every block to the block. -/
structure BareCases (P : Block → Block → Prop) : Prop where
  nil : P [] []
  append {xs ys xs' ys' : Block} (h : P xs ys) (h' : P xs' ys') : P (xs ++ xs') (ys ++ ys')
  assign (name : String) (value : Expr) : P [.assign name value.bare] [.assign name value]
  print (value : Expr) : P [.print value.bare] [.print value]
  ite_none (condition : Expr) {xs ys : Block} (h : P xs ys) :
    P [.ite condition.bare xs none] [.ite condition ys none]
  ite_some (condition : Expr) {xs ys xs' ys' : Block} (h : P xs ys) (h' : P xs' ys') :
    P [.ite condition.bare xs (Stmt.otherwise? xs')] [.ite condition ys (some ys')]
  loop (condition : Expr) {xs ys : Block} (h : P xs ys) :
    P [.while condition.bare xs] [.while condition ys]
  block {xs ys : Block} (h : P xs ys) : P xs [.block ys]

namespace BareCases

variable {P : Block → Block → Prop}

mutual

theorem of_stmt (h : BareCases P) : (s : Stmt) → P s.bare [s]
  | .assign name value => h.assign name value
  | .print value => h.print value
  | .ite condition body none => h.ite_none condition (of_block h body)
  | .ite condition body (some other) => h.ite_some condition (of_block h body) (of_block h other)
  | .while condition body => h.loop condition (of_block h body)
  | .block body => h.block (of_block h body)

theorem of_block (h : BareCases P) : (b : Block) → P (Stmt.bareBlock b) b
  | [] => h.nil
  | s :: ss => h.append (of_stmt h s) (of_block h ss)

end

end BareCases

/-! ## No parentheses and no bare blocks are left -/

/-- there are no parentheses in the expression -/
def Expr.Plain : Expr → Prop
  | .int _ | .float _ | .text _ | .var _ => True
  | .group _ => False
  | .binary _ left right => left.Plain ∧ right.Plain
  | .not e | .round e => e.Plain

/-- the statement itself, apart from those inside it, is no bare block and has no parentheses and no empty
block for the other case -/
def Stmt.Plain : Stmt → Prop
  | .assign _ value | .print value => value.Plain
  | .ite condition _ other => condition.Plain ∧ other ≠ some []
  | .while condition _ => condition.Plain
  | .block _ => False

/-- so it is with every statement of the program, at any depth -/
def Program.Plain (p : Program) : Prop := ∀ s ∈ Stmt.partsBlock p, s.Plain

theorem Expr.plain_bare (e : Expr) : e.bare.Plain := by
  induction e with
  | int n => trivial
  | float x => trivial
  | text s => trivial
  | var name => trivial
  | group e ih => exact ih
  | binary op left right ihl ihr => exact ⟨ihl, ihr⟩
  | not e ih => exact ih
  | round e ih => exact ih

theorem Expr.bare_of_plain {e : Expr} (h : e.Plain) : e.bare = e := by
  induction e with
  | int n => rfl
  | float x => rfl
  | text s => rfl
  | var name => rfl
  | group e ih => exact False.elim h
  | binary op left right ihl ihr => rw [bare, ihl h.1, ihr h.2]
  | not e ih => rw [bare, ih h]
  | round e ih => rw [bare, ih h]

theorem partsBlock_singleton (s : Stmt) : Stmt.partsBlock [s] = s.parts := List.append_nil _

namespace Program

variable {s : Stmt} {xs ys : Block}

theorem plain_append : Plain (xs ++ ys) ↔ Plain xs ∧ Plain ys := by
  unfold Plain
  rw [partsBlock_append]
  exact List.forall_mem_append

theorem plain_singleton : Plain [s] ↔ ∀ t ∈ s.parts, t.Plain := by
  unfold Plain
  rw [partsBlock_singleton]

theorem plain_assign {name : String} {value : Expr} : Plain [.assign name value] ↔ value.Plain :=
  plain_singleton.trans List.forall_mem_singleton

theorem plain_print {value : Expr} : Plain [.print value] ↔ value.Plain :=
  plain_singleton.trans List.forall_mem_singleton

theorem plain_while {condition : Expr} : Plain [.while condition xs] ↔ condition.Plain ∧ Plain xs :=
  plain_singleton.trans List.forall_mem_cons

theorem plain_ite_none {condition : Expr} :
    Plain [.ite condition xs none] ↔ condition.Plain ∧ Plain xs := by
  refine plain_singleton.trans (List.forall_mem_cons.trans (and_congr_left' ?_))
  exact and_iff_left nofun

theorem plain_ite_some {condition : Expr} :
    Plain [.ite condition xs (some ys)] ↔ (condition.Plain ∧ ys ≠ []) ∧ Plain xs ∧ Plain ys := by
  refine plain_singleton.trans (List.forall_mem_cons.trans (and_congr ?_ List.forall_mem_append))
  exact and_congr_right' (not_congr Option.some_inj)

theorem bareCases_plain : BareCases fun xs _ => Plain xs where
  nil := nofun
  append h h' := plain_append.mpr ⟨h, h'⟩
  assign _ value := plain_assign.mpr value.plain_bare
  print value := plain_print.mpr value.plain_bare
  ite_none condition _ _ h := plain_ite_none.mpr ⟨condition.plain_bare, h⟩
  ite_some condition xs _ xs' _ h h' := by
    cases xs' with
    | nil => exact plain_ite_none.mpr ⟨condition.plain_bare, h⟩
    | cons s ss =>
      exact plain_ite_some.mpr ⟨⟨condition.plain_bare, List.cons_ne_nil s ss⟩, h, h'⟩
  loop condition _ _ h := plain_while.mpr ⟨condition.plain_bare, h⟩
  block h := h

theorem plain_bare (p : Program) : p.bare.Plain := bareCases_plain.of_block p

theorem bareCases_of_plain : BareCases fun xs ys => Plain ys → xs = ys where
  nil _ := rfl
  append h h' hp := by rw [h (plain_append.mp hp).1, h' (plain_append.mp hp).2]
  assign _ _ hp := by rw [Expr.bare_of_plain (plain_assign.mp hp)]
  print _ hp := by rw [Expr.bare_of_plain (plain_print.mp hp)]
  ite_none _ _ _ h hp := by
    obtain ⟨hc, hb⟩ := plain_ite_none.mp hp
    rw [Expr.bare_of_plain hc, h hb]
  ite_some _ _ _ _ ys' h h' hp := by
    obtain ⟨⟨hc, hne⟩, hb, ho⟩ := plain_ite_some.mp hp
    rw [Expr.bare_of_plain hc, h hb, h' ho]
    cases ys' with
    | nil => exact absurd rfl hne
    | cons s ss => rfl
  loop _ _ _ h hp := by
    obtain ⟨hc, hb⟩ := plain_while.mp hp
    rw [Expr.bare_of_plain hc, h hb]
  block _ hp := absurd (hp _ List.mem_cons_self) id

theorem bare_of_plain {p : Program} (h : p.Plain) : p.bare = p := bareCases_of_plain.of_block p h

/-- Nothing else is taken out: the bare program is the program only if there is nothing to take out. -/
theorem bare_eq_self_iff {p : Program} : p.bare = p ↔ p.Plain :=
  ⟨fun h => h ▸ p.plain_bare, bare_of_plain⟩

end Program

/-! ## Plans and listings -/

namespace Expr

theorem literal?_bare (e : Expr) : e.bare.literal? = e.literal? := by
  induction e with
  | group e ih => exact ih
  | _ => rfl

theorem names_bare (e : Expr) : e.bare.names = e.names := by
  induction e with
  | group e ih => exact ih
  | binary op left right ihl ihr => rw [bare, names, ihl, ihr, names]
  | not e ih => exact ih
  | round e ih => exact ih
  | _ => rfl

theorem stackDepth_bare (e : Expr) : e.bare.stackDepth = e.stackDepth := by
  induction e with
  | group e ih => exact ih
  | binary op left right ihl ihr => rw [bare, stackDepth, ihl, ihr, stackDepth]
  | not e ih => exact ih
  | round e ih => exact ih
  | _ => rfl

end Expr

namespace Plan

variable (plan : Plan)

theorem textVariable?_bare (e : Expr) : plan.textVariable? e.bare = plan.textVariable? e := by
  induction e with
  | group e ih => exact ih
  | _ => rfl

theorem valueCode_bare (e : Expr) : plan.valueCode e.bare = plan.valueCode e := by
  induction e with
  | group e ih => exact ih
  | binary op left right ihl ihr => rw [Expr.bare, valueCode, ihl, ihr, valueCode]
  | not e ih => rw [Expr.bare, valueCode, ih, valueCode]
  | _ => rfl

theorem addAssignment_bare (name : String) (value : Expr) :
    plan.addAssignment name value.bare = plan.addAssignment name value := by
  unfold addAssignment
  rw [value.literal?_bare, value.names_bare]

theorem addPrinted_bare (value : Expr) : plan.addPrinted value.bare = plan.addPrinted value := by
  unfold addPrinted
  rw [value.literal?_bare, value.names_bare]

theorem assignCode_bare (name : String) (value : Expr) :
    plan.assignCode name value.bare = plan.assignCode name value := by
  unfold assignCode
  rw [value.literal?_bare, plan.valueCode_bare]

theorem printCode_bare (n : Nat) (value : Expr) :
    plan.printCode n value.bare = plan.printCode n value := by
  unfold printCode
  rw [value.literal?_bare, plan.textVariable?_bare, plan.valueCode_bare]

theorem addBlock_append (xs ys : Block) :
    plan.addBlock (xs ++ ys) = (plan.addBlock xs).addBlock ys := by
  rw [addBlock_eq_foldl, addBlock_eq_foldl, addBlock_eq_foldl, partsBlock_append, List.foldl_append]

theorem bareCases_addBlock : BareCases fun xs ys => ∀ plan : Plan, plan.addBlock xs = plan.addBlock ys where
  nil _ := rfl
  append h h' plan := by rw [addBlock_append, h, h', addBlock_append]
  assign name value plan := plan.addAssignment_bare name value
  print value plan := plan.addPrinted_bare value
  ite_none condition xs ys h plan := by
    show (plan.addNames condition.bare.names).addBlock xs = (plan.addNames condition.names).addBlock ys
    rw [condition.names_bare, h]
  ite_some condition xs ys xs' ys' h h' plan := by
    have hother : plan.addBlock [.ite condition.bare xs (Stmt.otherwise? xs')] =
        ((plan.addNames condition.bare.names).addBlock xs).addBlock xs' := by
      cases xs' <;> rfl
    rw [hother, condition.names_bare, h, h']
    rfl
  loop condition xs ys h plan := by
    show (plan.addNames condition.bare.names).addBlock xs = (plan.addNames condition.names).addBlock ys
    rw [condition.names_bare, h]
  block h plan := h plan

theorem labelCountBlock_append (xs ys : Block) :
    plan.labelCountBlock (xs ++ ys) = plan.labelCountBlock xs + plan.labelCountBlock ys := by
  induction xs with
  | nil => exact (Nat.zero_add _).symm
  | cons x xs ih =>
    rw [List.cons_append, labelCountBlock, ih, labelCountBlock, Nat.add_assoc]

theorem blockCode_singleton (n : Nat) (s : Stmt) : plan.blockCode n [s] = plan.stmtCode n s := by
  rw [blockCode]
  cases plan.stmtCode n s with
  | error failure => rfl
  | ok code => exact congrArg Except.ok (List.append_nil code)

theorem blockCode_append (n : Nat) (xs ys : Block) :
    plan.blockCode n (xs ++ ys) = (do
      let first ← plan.blockCode n xs
      let rest ← plan.blockCode (n + plan.labelCountBlock xs) ys
      return first ++ rest) := by
  induction xs generalizing n with
  | nil =>
    show plan.blockCode n ys = do
      let rest ← plan.blockCode n ys
      return [] ++ rest
    cases plan.blockCode n ys <;> rfl
  | cons x xs ih =>
    rw [List.cons_append, blockCode, ih, blockCode, labelCountBlock, Nat.add_assoc]
    cases plan.stmtCode n x with
    | error failure => rfl
    | ok first =>
      cases plan.blockCode (n + plan.labelCount x) xs with
      | error failure => rfl
      | ok second =>
        cases plan.blockCode (n + (plan.labelCount x + plan.labelCountBlock xs)) ys with
        | error failure => rfl
        | ok rest => exact congrArg Except.ok (List.append_assoc first second rest).symm

/-- The blocks have the same code wherever they stand, and take as many control labels. -/
structure SameCode (xs ys : Block) : Prop where
  labels : plan.labelCountBlock xs = plan.labelCountBlock ys
  code (n : Nat) : plan.blockCode n xs = plan.blockCode n ys

variable {plan}

theorem SameCode.refl (xs : Block) : plan.SameCode xs xs := ⟨rfl, fun _ => rfl⟩

theorem SameCode.trans {xs ys zs : Block} (h : plan.SameCode xs ys) (h' : plan.SameCode ys zs) :
    plan.SameCode xs zs where
  labels := h.labels.trans h'.labels
  code n := (h.code n).trans (h'.code n)

theorem SameCode.append {xs ys xs' ys' : Block} (h : plan.SameCode xs ys)
    (h' : plan.SameCode xs' ys') : plan.SameCode (xs ++ xs') (ys ++ ys') where
  labels := by rw [labelCountBlock_append, labelCountBlock_append, h.labels, h'.labels]
  code n := by rw [blockCode_append, blockCode_append, h.code, h.labels, h'.code]

theorem SameCode.of_stmt {s t : Stmt} (hlabels : plan.labelCount s = plan.labelCount t)
    (hcode : ∀ n, plan.stmtCode n s = plan.stmtCode n t) : plan.SameCode [s] [t] where
  labels := congrArg (· + 0) hlabels
  code n := by rw [blockCode_singleton, blockCode_singleton, hcode]

/-- An empty block for the other case and none are the same: the code has both labels in any case. -/
theorem sameCode_otherwise? (condition : Expr) (body other : Block) :
    plan.SameCode [.ite condition body (Stmt.otherwise? other)] [.ite condition body (some other)] := by
  cases other with
  | nil =>
    refine .of_stmt rfl fun n => ?_
    show plan.stmtCode n (.ite condition body none) = _
    rw [stmtCode, stmtCode, blockCode]
    cases plan.valueCode condition with
    | error failure => rfl
    | ok test =>
      cases plan.blockCode (n + 2) body with
      | error failure => rfl
      | ok first =>
        -- the code for the false case ends in the two labels either way
        refine congrArg Except.ok ?_
        simp only [List.append_assoc, List.cons_append, List.nil_append]
  | cons s ss => exact .refl _

theorem bareCases_sameCode : BareCases plan.SameCode where
  nil := .refl []
  append h h' := h.append h'
  assign name value := .of_stmt rfl fun _ => plan.assignCode_bare name value
  print value := by
    refine .of_stmt ?_ fun n => ?_
    · rw [labelCount, plan.textVariable?_bare, labelCount]
    · rw [stmtCode, plan.printCode_bare, stmtCode]
  ite_none condition xs ys h := by
    refine .of_stmt ?_ fun n => ?_
    · rw [labelCount, h.labels, labelCount]
    · rw [stmtCode, plan.valueCode_bare, h.code, stmtCode]
  ite_some condition xs ys xs' ys' h h' := by
    refine (sameCode_otherwise? condition.bare xs xs').trans (.of_stmt ?_ fun n => ?_)
    · rw [labelCount, h.labels, h'.labels, labelCount]
    · rw [stmtCode, plan.valueCode_bare, h.code, h.labels, h'.code, stmtCode]
  loop condition xs ys h := by
    refine .of_stmt ?_ fun n => ?_
    · rw [labelCount, h.labels, labelCount]
    · rw [stmtCode, plan.valueCode_bare, h.code, stmtCode]
  block h := by
    refine ⟨?_, fun n => ?_⟩
    · rw [h.labels, labelCountBlock]
      rfl
    · rw [h.code, blockCode_singleton, stmtCode]

end Plan

theorem stackDepthBlock_append (xs ys : Block) :
    Stmt.stackDepthBlock (xs ++ ys) = max (Stmt.stackDepthBlock xs) (Stmt.stackDepthBlock ys) := by
  induction xs with
  | nil => exact (Nat.zero_max _).symm
  | cons x xs ih =>
    rw [List.cons_append, Stmt.stackDepthBlock, ih, Stmt.stackDepthBlock, Nat.max_assoc]

theorem stackDepthBlock_singleton (s : Stmt) : Stmt.stackDepthBlock [s] = s.stackDepth :=
  Nat.max_zero _

theorem bareCases_stackDepth :
    BareCases fun xs ys => Stmt.stackDepthBlock xs = Stmt.stackDepthBlock ys where
  nil := rfl
  append h h' := by rw [stackDepthBlock_append, stackDepthBlock_append, h, h']
  assign _ value := congrArg (max · 0) value.stackDepth_bare
  print value := congrArg (max · 0) value.stackDepth_bare
  ite_none condition _ _ h := by
    rw [stackDepthBlock_singleton, stackDepthBlock_singleton, Stmt.stackDepth, h,
      condition.stackDepth_bare, Stmt.stackDepth]
  ite_some condition xs _ xs' _ h h' := by
    have hother : (Stmt.ite condition.bare xs (Stmt.otherwise? xs')).stackDepth =
        max condition.bare.stackDepth (max (Stmt.stackDepthBlock xs) (Stmt.stackDepthBlock xs')) := by
      cases xs' with
      | nil => exact congrArg (max _) (Nat.max_zero _).symm
      | cons s ss => rfl
    rw [stackDepthBlock_singleton, stackDepthBlock_singleton, hother, h, h',
      condition.stackDepth_bare, Stmt.stackDepth]
  loop condition _ _ h := by
    rw [stackDepthBlock_singleton, stackDepthBlock_singleton, Stmt.stackDepth, h,
      condition.stackDepth_bare, Stmt.stackDepth]
  block h := by rw [h, stackDepthBlock_singleton, Stmt.stackDepth]

namespace Program

variable (p : Program)

/-- **The bare program has the plan of the program**: the same variables, texts and labels. -/
theorem plan_bare : p.bare.plan = p.plan := Plan.bareCases_addBlock.of_block p {}

/-- **The bare program has the listing of the program**, or fails to compile with the same failure. -/
theorem compile_bare : p.bare.compile = p.compile := by
  have hcode : p.plan.SameCode p.bare p := Plan.bareCases_sameCode.of_block p
  have hdepth : Stmt.stackDepthBlock p.bare = Stmt.stackDepthBlock p := bareCases_stackDepth.of_block p
  unfold compile Plan.listing
  rw [plan_bare, hcode.code, hdepth]

end Program

end TinyScript
