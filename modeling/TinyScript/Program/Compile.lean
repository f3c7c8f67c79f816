import TinyScript.Assembly.Fragment
import TinyScript.Plan

/-!
# Compiling a program

The listing of a program under a plan: its statements, the routines, and the data that the plan asks
for.  What a program may do only when it is run makes the compilation fail, and so does a plan that
lacks something the program needs.

Control labels are numbered on from the labels of the plan.  The statements of a block know their
numbers beforehand, because `Plan.labelCount` says how many labels the statements before them take.
-/

namespace TinyScript

namespace Plan

open Assembly

def controlStem : String := "L"

def controlLabel (n : Nat) : String := Labels.label controlStem n

/-- code that leaves the value of an expression in the result register -/
def valueCode (plan : Plan) : Expr → Except Failure (List Line)
  | .int n => .ok (Fragment.loadInt n)
  | .float x => .error (.unsupportedFeature (.floatLiteral x))
  | .text s => .error (.unsupportedFeature (.textLiteral s))
  | .var name =>
    if plan.isTextual name then .error (.unsupportedFeature (.textVariable name))
    else do return Fragment.loadVar (← plan.slot name)
  | .group e => plan.valueCode e
  | .binary op left right => do
    let first ← plan.valueCode left
    let second ← plan.valueCode right
    return first ++ Fragment.save ++ second ++ Fragment.restoreLeft ++ Fragment.combine op
  | .not e => do return (← plan.valueCode e) ++ Fragment.negate
  | .round _ => .error (.unsupportedFeature .rounding)

def assignCode (plan : Plan) (name : String) (value : Expr) : Except Failure (List Line) := do
  let slot ← plan.slot name
  match value.literal? with
  | some text => return Fragment.storeAddress slot (← plan.labelFor name text)
  | none =>
    if plan.isTextual name then .error (.unsupportedFeature (.textVariableReassigned name))
    else return (← plan.valueCode value) ++ Fragment.storeVar slot .result

/-- the text variable that an expression names, perhaps in parentheses -/
def textVariable? (plan : Plan) (e : Expr) : Option String :=
  match e.ungrouped with
  | .var name => if plan.isTextual name then some name else none
  | _ => none

/-- code that prints a value without the newline behind it -/
def printCode (plan : Plan) (n : Nat) (value : Expr) : Except Failure (List Line) :=
  match value.literal?, plan.textVariable? value with
  | some text, _ => .ok (text.toUTF8.toList.flatMap Fragment.writeByte)
  | none, some name => do
    return Fragment.writeTextVar (← plan.slot name) (controlLabel n) (controlLabel (n + 1))
  | none, none => do return (← plan.valueCode value) ++ Fragment.callPrintInt .result

def newline : List Line := Fragment.writeByte 10

mutual

/-- how many control labels the code of a statement takes -/
def labelCount (plan : Plan) : Stmt → Nat
  | .assign _ _ => 0
  | .print value => if (plan.textVariable? value).isSome then 2 else 0
  | .ite _ body none => 2 + plan.labelCountBlock body
  | .ite _ body (some other) => 2 + plan.labelCountBlock body + plan.labelCountBlock other
  | .while _ body => 2 + plan.labelCountBlock body
  | .block body => plan.labelCountBlock body

def labelCountBlock (plan : Plan) : Block → Nat
  | [] => 0
  | s :: ss => plan.labelCount s + plan.labelCountBlock ss

end

mutual

/-- the code of a statement, whose control labels are numbered from `n` on -/
def stmtCode (plan : Plan) (n : Nat) : Stmt → Except Failure (List Line)
  | .assign name value => plan.assignCode name value
  | .print value => do return (← plan.printCode n value) ++ newline
  | .ite condition body none => do
    let test ← plan.valueCode condition
    let first ← plan.blockCode (n + 2) body
    return test ++ Fragment.branchIfFalse .result (controlLabel n) ++ first ++
      Fragment.jump (controlLabel (n + 1)) ++
      [.label (controlLabel n), .label (controlLabel (n + 1))]
  | .ite condition body (some other) => do
    let test ← plan.valueCode condition
    let first ← plan.blockCode (n + 2) body
    let second ← plan.blockCode (n + 2 + plan.labelCountBlock body) other
    return test ++ Fragment.branchIfFalse .result (controlLabel n) ++ first ++
      Fragment.jump (controlLabel (n + 1)) ++ .label (controlLabel n) :: second ++
      [.label (controlLabel (n + 1))]
  | .while condition body => do
    let test ← plan.valueCode condition
    let loop ← plan.blockCode (n + 2) body
    return .label (controlLabel n) :: test ++
      Fragment.branchIfFalse .result (controlLabel (n + 1)) ++ loop ++
      Fragment.jump (controlLabel n) ++ [.label (controlLabel (n + 1))]
  | .block body => plan.blockCode n body

def blockCode (plan : Plan) (n : Nat) : Block → Except Failure (List Line)
  | [] => .ok []
  | s :: ss => do
    let first ← plan.stmtCode n s
    let rest ← plan.blockCode (n + plan.labelCount s) ss
    return first ++ rest

end

end Plan

/-! ## The stack -/

/-- how many operands are on the stack at once while an expression is evaluated -/
def Expr.stackDepth : Expr → Nat
  | .int _ | .float _ | .text _ | .var _ => 0
  | .group e | .not e | .round e => e.stackDepth
  | .binary _ left right => max left.stackDepth (right.stackDepth + 1)

mutual

def Stmt.stackDepth : Stmt → Nat
  | .assign _ value => value.stackDepth
  | .print value => value.stackDepth
  | .ite condition body none => max condition.stackDepth (Stmt.stackDepthBlock body)
  | .ite condition body (some other) =>
    max condition.stackDepth (max (Stmt.stackDepthBlock body) (Stmt.stackDepthBlock other))
  | .while condition body => max condition.stackDepth (Stmt.stackDepthBlock body)
  | .block body => Stmt.stackDepthBlock body

def Stmt.stackDepthBlock : Block → Nat
  | [] => 0
  | s :: ss => max s.stackDepth (Stmt.stackDepthBlock ss)

end

/-! ## The listing -/

namespace Plan

open Assembly

def supplement (plan : Plan) (stackWords : Nat) : List Line :=
  .blank :: Fragment.printInt ++
  .blank :: Fragment.divisionTrap ++
  .blank :: (plan.pool.entries.flatMap fun e =>
    Fragment.literal e.label e.bytes.toList ++ [.blank]) ++
  (plan.names.flatMap fun name => Fragment.variableSlot (slotLabel name)) ++
  (if plan.storage.isEmpty then [] else [.blank]) ++
  Fragment.runtimeData stackWords

def listing (plan : Plan) (p : Program) : Except Failure (List Line) := do
  let statements ← plan.blockCode plan.labels.allocated p
  return Fragment.programStart ++ statements ++ Fragment.programEnd ++
    plan.supplement (max 1 (Stmt.stackDepthBlock p))

end Plan

def Program.compile (p : Program) : Except Failure (List Assembly.Line) := p.plan.listing p

def Assembly.texts (lines : List Assembly.Line) : List String := lines.map Assembly.Line.text

end TinyScript
