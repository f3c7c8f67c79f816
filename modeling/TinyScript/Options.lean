/-!
# Options

What a command line asks for, and why one may ask for nothing.
-/

namespace TinyScript

/-- how the tree of a program is written to a file -/
inductive TreeFormat where
  | sexpr
  | json
deriving DecidableEq, Repr

def TreeFormat.name : TreeFormat → String
  | .sexpr => "sexpr"
  | .json => "json"

def TreeFormat.ofName? (name : String) : Option TreeFormat :=
  [TreeFormat.sexpr, .json].find? fun f => f.name == name

def TreeFormat.fileName : TreeFormat → String
  | .sexpr => "ast.txt"
  | .json => "ast.json"

structure Options where
  input : Option String := none
  output : String := "."
  treeFormat : TreeFormat := .sexpr
  noRun : Bool := false
  noCompile : Bool := false
  /-- how much is told of the work, at most 255 -/
  verbose : Nat := 0
deriving DecidableEq, Repr

/-- why a command line is not carried out -/
inductive Usage where
  | help
  | version
  | unknownArgument
  /-- a value that is missing, or is none of those that are possible -/
  | invalidValue
  | argumentConflict
  | tooManyValues
deriving DecidableEq, Repr

def Usage.exitCode : Usage → UInt32
  | .help | .version => 0
  | _ => 2

end TinyScript
