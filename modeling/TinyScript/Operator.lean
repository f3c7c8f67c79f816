/-!
# Binary operators

The twelve operators between two expressions, their spelling and how tightly they bind.
-/

namespace TinyScript

inductive Operator where
  | add | sub | mul | div
  | eq | ne | lt | gt | le | ge
  | and | or
deriving DecidableEq, Repr

namespace Operator

def all : List Operator :=
  [.add, .sub, .mul, .div, .eq, .ne, .lt, .gt, .le, .ge, .and, .or]

def symbol : Operator → String
  | .add => "+"
  | .sub => "-"
  | .mul => "*"
  | .div => "/"
  | .eq => "=="
  | .ne => "!="
  | .lt => "<"
  | .gt => ">"
  | .le => "<="
  | .ge => ">="
  | .and => "&&"
  | .or => "||"

def ofSymbol? (symbol : String) : Option Operator :=
  all.find? fun op => op.symbol == symbol

/-- the six operators that answer one or zero by comparing -/
def isComparison : Operator → Bool
  | .eq | .ne | .lt | .gt | .le | .ge => true
  | _ => false

/-- how tightly the operator binds, from the loosest at one to the tightest at six -/
def level : Operator → Nat
  | .or => 1
  | .and => 2
  | .eq | .ne => 3
  | .lt | .gt | .le | .ge => 4
  | .add | .sub => 5
  | .mul | .div => 6

theorem mem_all (op : Operator) : op ∈ all := by cases op <;> decide

theorem ofSymbol?_symbol (op : Operator) : ofSymbol? op.symbol = some op := by
  cases op <;> decide

end Operator

end TinyScript
