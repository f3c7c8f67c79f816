import TinyScript.Options

/-!
# Reading a command line

The arguments are read from the left to the right.  A value is checked late: an option or the input
file waits with its value until another option or file comes, or until the end, and
`Arguments.settle` checks it then.  So an argument that nothing is known of is reported before a
value to its left that is wrong, but every other fault comes after the faults to its left.
-/

namespace TinyScript

namespace Arguments

/-- what a value can be for -/
inductive Slot where
  | output
  | treeFormat
  | input
deriving DecidableEq

inductive Switch where
  | noRun
  | noCompile
  | verbose
  | help
  | version
deriving DecidableEq

/-- The options that are settled, what waits for its value or with it, and what may still come. -/
structure State where
  input : Option String := none
  output : Option String := none
  treeFormat : Option TreeFormat := none
  noRun : Bool := false
  noCompile : Bool := false
  verbose : Nat := 0
  waiting : Option (Slot × Option String) := none
  named : Bool := false
  filesOnly : Bool := false
deriving DecidableEq

/-- gives a value to a slot that has none -/
def assign (s : State) (slot : Slot) (value : String) : Except Usage State :=
  match slot with
  | .input => if value = "" then .error .invalidValue else .ok { s with input := some value }
  | .output =>
    if s.output.isSome then .error .argumentConflict
    else if value = "" then .error .invalidValue
    else .ok { s with output := some value }
  | .treeFormat =>
    if s.treeFormat.isSome then .error .argumentConflict
    else
      match TreeFormat.ofName? value with
      | some format => .ok { s with treeFormat := some format }
      | none => .error .invalidValue

/-- nothing waits any longer -/
def settle (s : State) : Except Usage State :=
  match s.waiting with
  | none => .ok s
  | some (_, none) => .error .invalidValue
  | some (slot, some value) => assign { s with waiting := none } slot value

def turnOn (s : State) : Switch → Except Usage State
  | .noRun => if s.noRun then .error .argumentConflict else .ok { s with noRun := true }
  | .noCompile => if s.noCompile then .error .argumentConflict else .ok { s with noCompile := true }
  | .verbose => .ok { s with verbose := min 255 (s.verbose + 1) }
  | .help => .error .help
  | .version => .error .version

def switch (s : State) (w : Switch) : Except Usage State := do turnOn (← settle s) w

/-- an option whose value is part of the argument -/
def attached (s : State) (slot : Slot) (value : String) : Except Usage State := do
  assign (← settle s) slot value

/-- an option whose value is the next argument -/
def await (s : State) (slot : Slot) : Except Usage State := do
  return { ← settle s with waiting := some (slot, none) }

def file (s : State) (name : String) : Except Usage State :=
  if s.named then .error .unknownArgument
  else do return { ← settle s with waiting := some (.input, some name), named := true }

def ofLongName? (name : String) : Option (Switch ⊕ Slot) :=
  match name with
  | "no-run" => some (.inl .noRun)
  | "no-compile" => some (.inl .noCompile)
  | "verbose" => some (.inl .verbose)
  | "help" => some (.inl .help)
  | "version" => some (.inl .version)
  | "output" => some (.inr .output)
  | "tree-format" => some (.inr .treeFormat)
  | _ => none

/-- an argument behind two dashes, cut at its first `=` -/
def long (s : State) (cs : List Char) : Except Usage State :=
  let value :=
    match cs.dropWhile (· != '=') with
    | [] => none
    | _ :: value => some (String.ofList value)
  match ofLongName? (String.ofList (cs.takeWhile (· != '='))), value with
  | none, _ => .error .unknownArgument
  | some (.inl w), none => switch s w
  | some (.inl _), some _ => .error .tooManyValues
  | some (.inr slot), none => await s slot
  | some (.inr slot), some value => attached s slot value

/-- The letters behind one dash.  Those behind the letter of an option with a value are its value,
and may have a `=` in front. -/
def short (s : State) : List Char → Except Usage State
  | [] => .ok s
  | 'v' :: cs => do short (← switch s .verbose) cs
  | 'h' :: _ => switch s .help
  | 'V' :: _ => switch s .version
  | ['o'] => await s .output
  | 'o' :: '=' :: cs => attached s .output (String.ofList cs)
  | 'o' :: cs => attached s .output (String.ofList cs)
  | _ => .error .unknownArgument

def plain (s : State) (argument : String) : Except Usage State :=
  match s.waiting with
  | some (slot, none) => .ok { s with waiting := some (slot, some argument) }
  | _ => file s argument

def step (s : State) (argument : String) : Except Usage State :=
  if s.filesOnly then file s argument
  else
    match argument.toList with
    | ['-', '-'] => .ok { s with filesOnly := true }
    | '-' :: '-' :: cs => long s cs
    | '-' :: c :: cs => short s (c :: cs)
    | _ => plain s argument

def finish (s : State) : Except Usage Options := do
  let s ← settle s
  return {
    input := s.input
    output := s.output.getD "."
    treeFormat := s.treeFormat.getD .sexpr
    noRun := s.noRun
    noCompile := s.noCompile
    verbose := s.verbose }

end Arguments

def Options.ofArguments (arguments : List String) : Except Usage Options := do
  Arguments.finish (← arguments.foldlM Arguments.step {})

end TinyScript
