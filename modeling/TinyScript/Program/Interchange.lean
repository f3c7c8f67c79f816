import TinyScript.Failure
import TinyScript.Json
import TinyScript.Json.Record
import TinyScript.Program

/-!
# Programs as JSON documents

The interchange form of a tree: every statement and every expression is an object whose only member
is named for what it is.  `Program.toJson` gives the document of a program and `Program.ofJson`
reads one back.  At most `nestingLimit` brackets may be open at once in a document that is read.
-/

namespace TinyScript

namespace Interchange

/-! ## Writing -/

def ofExpr : Expr → Json
  | .int n => .object [("int", .int n.toInt)]
  | .float x => .object [("float", .float x)]
  | .text s => .object [("str", .text s)]
  | .var name => .object [("var", .text name)]
  | .group e => .object [("group", ofExpr e)]
  | .binary op left right =>
    .object [("binary",
      .object [("op", .text op.symbol), ("left", ofExpr left), ("right", ofExpr right)])]
  | .not e => .object [("not", ofExpr e)]
  | .round e => .object [("round", ofExpr e)]

def ofStatements (statements : List Json) : Json := .object [("statements", .array statements)]

mutual

def ofStmt : Stmt → Json
  | .assign name value =>
    .object [("assign", .object [("name", .text name), ("value", ofExpr value)])]
  | .print value => .object [("print", .object [("value", ofExpr value)])]
  | .ite condition body none =>
    .object [("if", .object [("condition", ofExpr condition),
      ("then_block", ofStatements (ofBlock body))])]
  | .ite condition body (some other) =>
    .object [("if", .object [("condition", ofExpr condition),
      ("then_block", ofStatements (ofBlock body)),
      ("else_block", ofStatements (ofBlock other))])]
  | .while condition body =>
    .object [("while", .object [("condition", ofExpr condition),
      ("body", ofStatements (ofBlock body))])]
  | .block body => .object [("block", ofStatements (ofBlock body))]

def ofBlock : Block → List Json
  | [] => []
  | s :: ss => ofStmt s :: ofBlock ss

end

/-! ## Expressions -/

inductive ExprTag where
  | int | float | str | var | group | binary | not | round
deriving DecidableEq

def exprTags : Json.Tags ExprTag where
  all := [.int, .float, .str, .var, .group, .binary, .not, .round]
  name
    | .int => "int"
    | .float => "float"
    | .str => "str"
    | .var => "var"
    | .group => "group"
    | .binary => "binary"
    | .not => "not"
    | .round => "round"
  content
    | .binary => .record
    | _ => .single

open Json (Field Reader Record)

def operator : Reader Operator := fun cs => do
  let (symbol, cs) ← Reader.text cs
  match Operator.ofSymbol? symbol with
  | some op => return (op, cs)
  | none => .error (.rejected (Failure.unsupportedOperator symbol).message)

structure BinaryParts where
  op : Option Operator := none
  left : Option Expr := none
  right : Option Expr := none

def binaryTitle : String := "struct variant Expr::Binary"

/-- two operands, each read by `operand`, and their operator -/
def binaryRecord (operand : Reader Expr) : Record BinaryParts Expr where
  title := binaryTitle
  fields := [
    .at "op" false (·.op) (fun parts op => { parts with op := some op }) operator,
    .at "left" false (·.left) (fun parts left => { parts with left := some left }) operand,
    .at "right" false (·.right) (fun parts right => { parts with right := some right }) operand]
  empty := {}
  build parts := do
    return .binary (← Json.required "op" parts.op) (← Json.required "left" parts.left)
      (← Json.required "right" parts.right)

mutual

/-- an expression in which at most `depth` brackets are open at once -/
def expr : (depth : Nat) → Reader Expr
  | 0, cs => Reader.noTagged exprTags cs
  | depth + 1, cs =>
    Reader.tagged exprTags (fun tag =>
      match tag with
      | .int => Reader.map .int Reader.int32
      | .float => Reader.map .float Reader.double
      | .str => Reader.map .text Reader.text
      | .var => Reader.map .var Reader.text
      | .group => Reader.map .group (expr depth)
      | .binary => binary depth
      | .not => Reader.map .not (expr depth)
      | .round => Reader.map .round (expr depth)) cs

def binary : (depth : Nat) → Reader Expr
  | 0, cs => Reader.noRecord binaryTitle cs
  | depth + 1, cs => Reader.record (binaryRecord (expr depth)) cs

end

/-! ## Statements -/

inductive StmtTag where
  | assign | print | ite | while | block
deriving DecidableEq

def stmtTags : Json.Tags StmtTag where
  all := [.assign, .print, .ite, .while, .block]
  name
    | .assign => "assign"
    | .print => "print"
    | .ite => "if"
    | .while => "while"
    | .block => "block"
  content
    | .block => .single
    | _ => .record

/-- the one field of a block and of a program -/
def statementsRecord (title : String) (statements : Reader (List Stmt)) :
    Record (Option (List Stmt)) (List Stmt) where
  title
  fields := [.at "statements" false id (fun _ => some) statements]
  empty := none
  build parts := Json.required "statements" parts

structure AssignParts where
  name : Option String := none
  value : Option Expr := none

def assignTitle : String := "struct variant Stmt::Assign"

def assignRecord (value : Reader Expr) : Record AssignParts Stmt where
  title := assignTitle
  fields := [
    .at "name" false (·.name) (fun parts name => { parts with name := some name }) Reader.text,
    .at "value" false (·.value) (fun parts value => { parts with value := some value }) value]
  empty := {}
  build parts := do
    return .assign (← Json.required "name" parts.name) (← Json.required "value" parts.value)

def printTitle : String := "struct variant Stmt::Print"

def printRecord (value : Reader Expr) : Record (Option Expr) Stmt where
  title := printTitle
  fields := [.at "value" false id (fun _ => some) value]
  empty := none
  build parts := do return .print (← Json.required "value" parts)

structure IfParts where
  condition : Option Expr := none
  body : Option Block := none
  other : Option (Option Block) := none

def ifTitle : String := "struct variant Stmt::If"

def ifRecord (condition : Reader Expr) (block : Reader Block) : Record IfParts Stmt where
  title := ifTitle
  fields := [
    .at "condition" false (·.condition)
      (fun parts condition => { parts with condition := some condition }) condition,
    .at "then_block" false (·.body) (fun parts body => { parts with body := some body }) block,
    .at "else_block" true (·.other) (fun parts other => { parts with other := some other })
      (Reader.optional block)]
  empty := {}
  build parts := do
    return .ite (← Json.required "condition" parts.condition)
      (← Json.required "then_block" parts.body) parts.other.join

structure WhileParts where
  condition : Option Expr := none
  body : Option Block := none

def whileTitle : String := "struct variant Stmt::While"

def whileRecord (condition : Reader Expr) (block : Reader Block) : Record WhileParts Stmt where
  title := whileTitle
  fields := [
    .at "condition" false (·.condition)
      (fun parts condition => { parts with condition := some condition }) condition,
    .at "body" false (·.body) (fun parts body => { parts with body := some body }) block]
  empty := {}
  build parts := do
    return .while (← Json.required "condition" parts.condition)
      (← Json.required "body" parts.body)

def blockTitle : String := "struct Block"

def programTitle : String := "struct Program"

mutual

/-- a statement in which at most `depth` brackets are open at once -/
def stmt : (depth : Nat) → Reader Stmt
  | 0, cs => Reader.noTagged stmtTags cs
  | depth + 1, cs =>
    Reader.tagged stmtTags (fun tag =>
      match tag with
      | .assign => assign depth
      | .print => print depth
      | .ite => ite depth
      | .while => loop depth
      | .block => Reader.map .block (block depth)) cs

def assign : (depth : Nat) → Reader Stmt
  | 0, cs => Reader.noRecord assignTitle cs
  | depth + 1, cs => Reader.record (assignRecord (expr depth)) cs

def print : (depth : Nat) → Reader Stmt
  | 0, cs => Reader.noRecord printTitle cs
  | depth + 1, cs => Reader.record (printRecord (expr depth)) cs

def ite : (depth : Nat) → Reader Stmt
  | 0, cs => Reader.noRecord ifTitle cs
  | depth + 1, cs => Reader.record (ifRecord (expr depth) (block depth)) cs

def loop : (depth : Nat) → Reader Stmt
  | 0, cs => Reader.noRecord whileTitle cs
  | depth + 1, cs => Reader.record (whileRecord (expr depth) (block depth)) cs

def block : (depth : Nat) → Reader Block
  | 0, cs => Reader.noRecord blockTitle cs
  | depth + 1, cs => Reader.record (statementsRecord blockTitle (statements depth)) cs

def statements : (depth : Nat) → Reader (List Stmt)
  | 0, cs => Reader.noList cs
  | depth + 1, cs => Reader.list (stmt depth) cs

end

/-- how many brackets may be open at once -/
def nestingLimit : Nat := 127

/-- a whole program; the first bracket is always allowed -/
def program : Reader Program :=
  Reader.record (statementsRecord programTitle (statements (nestingLimit - 1)))

end Interchange

def Program.toJson (p : Program) : Json := Interchange.ofStatements (Interchange.ofBlock p)

def Program.document (p : Program) : String := String.ofList (Json.pretty 0 [] p.toJson)

def Program.ofJson (document : String) : Except Json.Fault Program :=
  Json.ofDocument Interchange.program document

end TinyScript
