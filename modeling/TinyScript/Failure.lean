import TinyScript.Operator
import TinyScript.Value

/-!
# Failures

Why running or compiling a program stops, and the message for each cause.
-/

namespace TinyScript

inductive Coercion where
  | boolean
  | roundedInteger
  | repeatCount
deriving DecidableEq, Repr

def Coercion.name : Coercion → String
  | .boolean => "boolean"
  | .roundedInteger => "rounded integer"
  | .repeatCount => "repeat count"

/-- what a program may do when it is run but not when it is compiled -/
inductive Feature where
  | floatLiteral (x : Float)
  | textLiteral (s : String)
  | textVariable (name : String)
  | textVariableReassigned (name : String)
  | rounding
deriving DecidableEq

def Feature.describe : Feature → String
  | .floatLiteral x => "floating-point literal " ++ Decimal.Layout.inspected.text x
  | .textLiteral s => "string literal " ++ Text.quoted s ++ " inside an expression"
  | .textVariable name => "string variable `" ++ name ++ "` inside an expression"
  | .textVariableReassigned name =>
    "non-literal value assigned to string variable `" ++ name ++ "`"
  | .rounding => "round()"

inductive Failure where
  /-- the operator is not defined for operands of these kinds -/
  | typeMismatch (op : Operator) (left right : Kind)
  | negationMismatch (operand : Kind)
  | unsupportedOperator (symbol : String)
  | unsupportedFeature (feature : Feature)
  /-- the plan has no literal for an assignment to this variable -/
  | missingLiteral (name : String)
  | missingSlot (name : String)
  | invalidCoercion (value : Value) (target : Coercion)
  | output
deriving DecidableEq

def Failure.message : Failure → String
  | .typeMismatch op left right =>
    "type mismatch: `" ++ op.symbol ++ "` is not defined for " ++ left.name ++ " and " ++ right.name
  | .negationMismatch operand => "type mismatch: `!` is not defined for " ++ operand.name
  | .unsupportedOperator symbol => "unsupported operator `" ++ symbol ++ "`"
  | .unsupportedFeature feature => "unsupported in code generation: " ++ feature.describe
  | .missingLiteral name =>
    "internal error: no literal pool entry for string variable `" ++ name ++ "`"
  | .missingSlot name => "internal error: no storage slot planned for variable `" ++ name ++ "`"
  | .invalidCoercion value target => "cannot coerce " ++ value.described ++ " to " ++ target.name
  | .output => "writing program output failed"

end TinyScript
