import TinyScript.Plan

/-!
# The statements inside a program, and how its plan comes about

`Stmt.parts` and `Stmt.partsBlock` list every statement of a statement or block at any depth, in the
order of the text.

* `Expr.text?`           the text of a text literal, inside any number of parentheses
* `Plan.addPart`         what a statement adds to a plan, apart from the statements inside it
* `plan_eq_foldl`        the plan of a program as a fold over all statements inside it
-/

namespace TinyScript

mutual

/-- the statement itself and every statement inside it -/
def Stmt.parts : Stmt → List Stmt
  | .assign name value => [.assign name value]
  | .print value => [.print value]
  | .ite condition body none => .ite condition body none :: Stmt.partsBlock body
  | .ite condition body (some other) =>
    .ite condition body (some other) :: (Stmt.partsBlock body ++ Stmt.partsBlock other)
  | .while condition body => .while condition body :: Stmt.partsBlock body
  | .block body => .block body :: Stmt.partsBlock body

def Stmt.partsBlock : Block → List Stmt
  | [] => []
  | s :: ss => s.parts ++ Stmt.partsBlock ss

end

theorem Stmt.mem_parts (s : Stmt) : s ∈ s.parts := by
  cases s with
  | ite condition body other => cases other <;> exact List.mem_cons_self
  | _ => exact List.mem_cons_self

theorem partsBlock_append (xs ys : Block) :
    Stmt.partsBlock (xs ++ ys) = Stmt.partsBlock xs ++ Stmt.partsBlock ys := by
  induction xs with
  | nil => rfl
  | cons x xs ih => rw [List.cons_append, Stmt.partsBlock, ih, Stmt.partsBlock, List.append_assoc]

/-- the text of a text literal, inside any number of parentheses -/
def Expr.text? : Expr → Option String
  | .text s => some s
  | .group e => e.text?
  | _ => none

/-- stripping the parentheses finds exactly the text literals -/
theorem Expr.literal?_eq_text? (e : Expr) : e.literal? = e.text? := by
  induction e with
  | group e ih => exact ih
  | _ => rfl

/-- some of the statements assigns a text literal, perhaps in parentheses, to the variable -/
def AssignsText (parts : List Stmt) (name : String) : Prop :=
  ∃ value text, Stmt.assign name value ∈ parts ∧ value.text? = some text

/-- whether a program, at any depth, assigns a text literal to the variable -/
def Program.AssignsText (p : Program) (name : String) : Prop :=
  TinyScript.AssignsText (Stmt.partsBlock p) name

namespace Plan

/-- what a statement itself adds to a plan -/
def addPart (plan : Plan) : Stmt → Plan
  | .assign name value => plan.addAssignment name value
  | .print value => plan.addPrinted value
  | .ite condition _ _ | .while condition _ => plan.addNames condition.names
  | .block _ => plan

mutual

theorem addStmt_eq_foldl (plan : Plan) : (s : Stmt) → plan.addStmt s = s.parts.foldl addPart plan
  | .assign name value => rfl
  | .print value => rfl
  | .ite condition body none => addBlock_eq_foldl (plan.addNames condition.names) body
  | .ite condition body (some other) => by
    rw [addStmt, Stmt.parts, List.foldl_cons, List.foldl_append, addBlock_eq_foldl _ other,
      addBlock_eq_foldl _ body]
    rfl
  | .while condition body => addBlock_eq_foldl (plan.addNames condition.names) body
  | .block body => addBlock_eq_foldl plan body

/-- The plan of a block is made from all the statements inside it, in the order of the text. -/
theorem addBlock_eq_foldl (plan : Plan) : (b : Block) →
    plan.addBlock b = (Stmt.partsBlock b).foldl addPart plan
  | [] => rfl
  | s :: ss => by
    rw [addBlock, Stmt.partsBlock, List.foldl_append, addStmt_eq_foldl _ s, addBlock_eq_foldl _ ss]

end

theorem plan_eq_foldl (p : Program) : p.plan = (Stmt.partsBlock p).foldl addPart {} :=
  addBlock_eq_foldl {} p

end Plan

end TinyScript
