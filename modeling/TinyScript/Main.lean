import TinyScript.Options.Arguments
import TinyScript.Pipeline

/-!
# The command line

Reads the options and the program, runs it and carries out its script on the files of the system.
-/

namespace TinyScript.Main

def usageText : String :=
  "Usage: tinyscript [OPTIONS] [INPUT]

Arguments:
  [INPUT]  Program source, or a `.json` parse tree; a built-in sample when omitted

Options:
  -o, --output <OUTPUT>            Directory for the artifacts [default: .]
      --tree-format <TREE_FORMAT>  Rendering of the parse tree dump [possible values: sexpr, json]
      --no-run                     Do not run the program (no tree dump either)
      --no-compile                 Do not generate assembly
  -v, --verbose...                 Tell more
  -h, --help                       Print help
  -V, --version                    Print version"

def usageMessage : Usage → String
  | .help => usageText
  | .version => "tinyscript 0.1.0"
  | .unknownArgument => "error: unexpected argument\n\n" ++ usageText
  | .invalidValue => "error: a value is missing or not possible\n\n" ++ usageText
  | .argumentConflict => "error: an option cannot be used multiple times\n\n" ++ usageText
  | .tooManyValues => "error: an option takes no value\n\n" ++ usageText

def fileError (e : IO.Error) : FileError := .other (toString e)

def attempt {α : Type} (action : IO α) : IO (Except FileError α) := do
  try return .ok (← action)
  catch e => return .error (fileError e)

def load (options : Options) : IO (Except LoadError Loaded) := do
  match options.input with
  | none => return Loaded.sample
  | some path => return Loaded.ofFile path (← attempt (IO.FS.readBinFile path))

def flushTo (out : IO.FS.Stream) (sink : Sink) : IO Bool := do
  try
    out.write sink.written
    out.flush
    return true
  catch _ => return false

/-- Runs a program to its end.  What it prints is written from time to time. -/
partial def execute (out : IO.FS.Stream) (r : Run) : IO (Option Failure) := do
  match r.advance 4096 with
  | .going r =>
    if ← flushTo out r.sink then execute out { r with sink := {} } else return some .output
  | .ended o => if ← flushTo out o.sink then return o.failure else return some .output

def act : Action → IO (Option Trouble)
  | .make directory => do
    match ← attempt (IO.FS.createDirAll directory) with
    | .ok _ => return none
    | .error e => return some (.making directory e)
  | .write path content blame => do
    match ← attempt (IO.FS.writeFile path content) with
    | .ok _ => return none
    | .error e => return some (blame e)

def perform : List Action → IO (Option Trouble)
  | [] => return none
  | a :: actions => do
    match ← act a with
    | none => perform actions
    | some trouble => return some trouble

def run (options : Options) : IO (Except Trouble Artifacts) := do
  match ← load options with
  | .error e => return .error (.loading e)
  | .ok loaded =>
    let failure ←
      if options.noRun then pure none
      else execute (← IO.getStdout) (loaded.program.start .empty {})
    match failure with
    | some failure => return .error (.running loaded.name failure)
    | none =>
      let script := Script.ofLoaded options loaded
      match ← perform script.actions with
      | some trouble => return .error trouble
      | none => return script.report

/-- a chain of messages, the outermost first -/
def complaint : List String → String
  | [] => "Error"
  | [message] => "Error: " ++ message
  | message :: causes =>
    "Error: " ++ message ++ "\n\nCaused by:\n" ++ "\n".intercalate (causes.map ("    " ++ ·))

/-- the exit code of a command line, after it is carried out -/
def carryOut (arguments : List String) : IO UInt32 := do
  match Options.ofArguments arguments with
  | .error usage =>
    let out ← if usage.exitCode = 0 then IO.getStdout else IO.getStderr
    out.putStrLn (usageMessage usage)
    return usage.exitCode
  | .ok options =>
    match ← run options with
    | .ok _ => return 0
    | .error trouble =>
      (← IO.getStderr).putStrLn (complaint trouble.chain)
      return 1

end TinyScript.Main

def main (arguments : List String) : IO UInt32 :=
  TinyScript.Main.carryOut arguments
