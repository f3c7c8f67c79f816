import TinyScript.Failure
import TinyScript.Plan.Pool
import TinyScript.Plan.Storage
import TinyScript.Program

/-!
# Storage plans

What has to be known of a whole program before any code for it is written: which variables it has,
which of them ever hold a text, and which texts it holds or prints.

* `Plan.storage`   the variables, which get a word each in the order in which they first occur, and
                   those among them to which a text literal is assigned somewhere
* `Plan.pool`      one entry for each text that is assigned to some variable, for each such
                   variable, and one for each text that is printed
-/

namespace TinyScript

/-- the text of an expression that is a literal, perhaps in parentheses -/
def Expr.literal? (e : Expr) : Option String :=
  match e.ungrouped with
  | .text s => some s
  | _ => none

def Expr.names : Expr → List String
  | .int _ | .float _ | .text _ => []
  | .var name => [name]
  | .group e | .not e | .round e => e.names
  | .binary _ left right => left.names ++ right.names

structure Plan where
  storage : Storage := .empty
  pool : Pool := .empty
  labels : Labels := {}

namespace Plan

def addName (plan : Plan) (name : String) : Plan :=
  { plan with storage := (plan.storage.insert name).2 }

def addNames (plan : Plan) (names : List String) : Plan := names.foldl addName plan

def markTextual (plan : Plan) (name : String) : Plan :=
  { plan with storage := plan.storage.mark name }

def addText (plan : Plan) (site : Site) (text : String) : Plan :=
  let (_, pool, labels) := plan.pool.insert plan.labels site text
  { plan with pool, labels }

/-- the target of an assignment comes before the names of its value -/
def addAssignment (plan : Plan) (name : String) (value : Expr) : Plan :=
  let plan := plan.addName name
  let plan :=
    match value.literal? with
    | some text => (plan.markTextual name).addText (.assigned name) text
    | none => plan
  plan.addNames value.names

def addPrinted (plan : Plan) (value : Expr) : Plan :=
  let plan :=
    match value.literal? with
    | some text => plan.addText .printed text
    | none => plan
  plan.addNames value.names

mutual

def addStmt (plan : Plan) : Stmt → Plan
  | .assign name value => plan.addAssignment name value
  | .print value => plan.addPrinted value
  | .ite condition body none => (plan.addNames condition.names).addBlock body
  | .ite condition body (some other) =>
    ((plan.addNames condition.names).addBlock body).addBlock other
  | .while condition body => (plan.addNames condition.names).addBlock body
  | .block body => plan.addBlock body

def addBlock (plan : Plan) : Block → Plan
  | [] => plan
  | s :: ss => (plan.addStmt s).addBlock ss

end

/-! ### Questions to a plan -/

/-- the variables in the order of their slots -/
def names (plan : Plan) : List String := plan.storage.names

def isTextual (plan : Plan) (name : String) : Bool := plan.storage.isTextual name

/-- The label of the word of a variable.  The stem keeps it apart from all other labels. -/
def slotLabel (name : String) : String := "var_" ++ name

def slot (plan : Plan) (name : String) : Except Failure String :=
  if plan.storage.contains name then .ok (slotLabel name) else .error (.missingSlot name)

/-- the entry of the text that an assignment to a variable stores -/
def entryFor? (plan : Plan) (name text : String) : Option PoolEntry :=
  plan.pool.entry? (.assigned name) text

/-- the label of that entry -/
def labelFor (plan : Plan) (name text : String) : Except Failure String :=
  match plan.entryFor? name text with
  | some e => .ok e.label
  | none => .error (.missingLiteral name)

end Plan

def Program.plan (p : Program) : Plan := Plan.addBlock {} p

end TinyScript
