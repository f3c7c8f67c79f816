import TinyScript.Decimal.Integer
import TinyScript.Decimal.Layout
import TinyScript.Program
import TinyScript.Text.Quoted

/-!
# S-expressions

The tree of a program on one line: every node is a list whose first item says what it is.
-/

namespace TinyScript

def sexpr (head : String) (items : List String) : String :=
  "(" ++ " ".intercalate (head :: items) ++ ")"

def Expr.sexpr : Expr → String
  | .int n => TinyScript.sexpr "int" [Decimal.integer n.toInt]
  | .float x => TinyScript.sexpr "float" [Decimal.Layout.inspected.text x]
  | .text s => TinyScript.sexpr "str" [Text.quoted s]
  | .var name => TinyScript.sexpr "var" [name]
  | .group e => TinyScript.sexpr "group" [e.sexpr]
  | .binary op left right => TinyScript.sexpr op.symbol [left.sexpr, right.sexpr]
  | .not e => TinyScript.sexpr "!" [e.sexpr]
  | .round e => TinyScript.sexpr "round" [e.sexpr]

mutual

def Stmt.sexpr : Stmt → String
  | .assign name value => TinyScript.sexpr "assign" [name, value.sexpr]
  | .print value => TinyScript.sexpr "print" [value.sexpr]
  | .ite condition body none =>
    TinyScript.sexpr "if" [condition.sexpr, TinyScript.sexpr "block" (Stmt.sexprs body)]
  | .ite condition body (some other) =>
    TinyScript.sexpr "if" [condition.sexpr, TinyScript.sexpr "block" (Stmt.sexprs body),
      TinyScript.sexpr "block" (Stmt.sexprs other)]
  | .while condition body =>
    TinyScript.sexpr "while" [condition.sexpr, TinyScript.sexpr "block" (Stmt.sexprs body)]
  | .block body => TinyScript.sexpr "block" (Stmt.sexprs body)

/-- the statements of a block, each on its own -/
def Stmt.sexprs : Block → List String
  | [] => []
  | s :: ss => s.sexpr :: Stmt.sexprs ss

end

def Program.sexpr (p : Program) : String := TinyScript.sexpr "program" (Stmt.sexprs p)

end TinyScript
