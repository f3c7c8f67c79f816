import TinyScript.Files
import TinyScript.Options
import TinyScript.Program.Compile
import TinyScript.Program.Interchange
import TinyScript.Program.Parse
import TinyScript.Program.Sexpr
import TinyScript.Run
import TinyScript.Sample

/-!
# From options to artifacts

A program is loaded, run and compiled, and each of the last two leaves an artifact in the output
directory: its tree and its listing.

* `Loaded.ofFile`     the program in a file, by the extension of its name
* `Script`            the file operations of a run in their order, and what the run reports when all
                      of them succeed
* `Pipeline.run`      everything together, on a tree of files
-/

namespace TinyScript

/-! ## Loading -/

inductive LoadError where
  | unreadable (path : String) (e : FileError)
  | notText (path : String)
  | source (e : SourceError)
  | document (fault : Json.Fault)
deriving DecidableEq

/-- the messages from the outermost to the innermost -/
def LoadError.chain : LoadError → List String
  | .unreadable path e => ["Reading " ++ path, e.message]
  | .notText path => ["Reading " ++ path, "stream did not contain valid UTF-8"]
  | .source e => ["Parse error: " ++ e.message]
  | .document fault => ["Failed to read parse tree JSON: " ++ fault.message]

structure Loaded where
  name : String
  program : Program
deriving DecidableEq

namespace Loaded

def ofSource (name source : String) : Except LoadError Loaded :=
  match Program.ofSource source with
  | .ok program => .ok ⟨name, program⟩
  | .error e => .error (.source e)

/-- the program whose interchange form a text is -/
def ofDocument (name document : String) : Except LoadError Loaded :=
  match Program.ofJson document with
  | .ok program => .ok ⟨name, program⟩
  | .error fault => .error (.document fault)

def sample : Except LoadError Loaded := ofSource Sample.name Sample.source

def ofFile (path : String) (read : Except FileError ByteArray) : Except LoadError Loaded :=
  match read with
  | .error e => .error (.unreadable path e)
  | .ok bytes =>
    match String.fromUTF8? bytes with
    | none => .error (.notText path)
    | some text =>
      if Path.hasExtension "json" path then ofDocument path text else ofSource path text

end Loaded

/-! ## What a run writes -/

structure Artifacts where
  tree : Option String := none
  assembly : Option String := none
deriving DecidableEq

inductive Trouble where
  | loading (e : LoadError)
  | running (name : String) (failure : Failure)
  | making (directory : String) (e : FileError)
  | writingTree (e : FileError)
  | generating (name : String) (failure : Failure)
  | writingAssembly (e : FileError)
deriving DecidableEq

def Trouble.chain : Trouble → List String
  | .loading e => "Loading program" :: e.chain
  | .running name failure => ["Running " ++ name, failure.message]
  | .making directory e => ["Creating " ++ directory, e.message]
  | .writingTree e => ["Writing parse tree dump", e.message]
  | .generating name failure => ["Generating assembly for " ++ name, failure.message]
  | .writingAssembly e => ["Writing assembly", e.message]

/-- an operation on files, and what its failure means -/
inductive Action where
  | make (directory : String)
  | write (path : String) (content : String) (blame : FileError → Trouble)

/-- file operations, and what is reported after them -/
structure Script where
  actions : List Action
  report : Except Trouble Artifacts

def assemblyFileName : String := "program.s"

def TreeFormat.render (format : TreeFormat) (p : Program) : String :=
  match format with
  | .sexpr => p.sexpr ++ "\n"
  | .json => p.document ++ "\n"

/-- each line of a listing with its newline -/
def Assembly.fileText (lines : List Assembly.Line) : String :=
  String.join ((Assembly.texts lines).map (· ++ "\n"))

namespace Script

def treeDump (options : Options) (p : Program) : Script :=
  if options.noRun then ⟨[], .ok {}⟩
  else
    let path := Path.join options.output options.treeFormat.fileName
    { actions :=
        [.make options.output, .write path (options.treeFormat.render p) .writingTree]
      report := .ok { tree := some path } }

def assembly (options : Options) (loaded : Loaded) : Script :=
  if options.noCompile then ⟨[], .ok {}⟩
  else
    match loaded.program.compile with
    | .error failure => ⟨[], .error (.generating loaded.name failure)⟩
    | .ok lines =>
      let path := Path.join options.output assemblyFileName
      { actions :=
          [.make options.output, .write path (Assembly.fileText lines) .writingAssembly]
        report := .ok { assembly := some path } }

def andThen (first second : Script) : Script :=
  match first.report with
  | .error trouble => ⟨first.actions, .error trouble⟩
  | .ok a =>
    { actions := first.actions ++ second.actions
      report := second.report.map fun b =>
        { tree := a.tree.or b.tree, assembly := a.assembly.or b.assembly } }

/-- what remains to be done when the program has run, unless it was not to be run at all -/
def ofLoaded (options : Options) (loaded : Loaded) : Script :=
  (treeDump options loaded.program).andThen (assembly options loaded)

end Script

/-! ## On a tree of files -/

namespace FileTree

def act (files : FileTree) : Action → FileTree × Option Trouble
  | .make directory =>
    match files.makeDirectories directory with
    | (files, none) => (files, none)
    | (files, some e) => (files, some (.making directory e))
  | .write path content blame =>
    match files.write path content.toUTF8 with
    | .ok files => (files, none)
    | .error e => (files, some (blame e))

/-- does one operation after the other until one fails -/
def perform (files : FileTree) : List Action → FileTree × Option Trouble
  | [] => (files, none)
  | a :: actions =>
    match files.act a with
    | (files, none) => files.perform actions
    | (files, some trouble) => (files, some trouble)

end FileTree

/-- how everything looks at the end -/
structure Report where
  files : FileTree
  sink : Sink
  result : Except Trouble Artifacts

namespace Pipeline

def load (options : Options) (files : FileTree) : Except LoadError Loaded :=
  match options.input with
  | none => Loaded.sample
  | some path => Loaded.ofFile path (files.read path)

def finish (script : Script) (files : FileTree) (sink : Sink) : Report :=
  match files.perform script.actions with
  | (files, none) => ⟨files, sink, script.report⟩
  | (files, some trouble) => ⟨files, sink, .error trouble⟩

/-- The report of a run with these options, or nothing if the program still runs after `fuel`
steps. -/
def run (fuel : Nat) (options : Options) (files : FileTree) (sink : Sink) : Option Report :=
  match load options files with
  | .error e => some ⟨files, sink, .error (.loading e)⟩
  | .ok loaded =>
    let script := Script.ofLoaded options loaded
    if options.noRun then some (finish script files sink)
    else
      match (loaded.program.start .empty sink).advance fuel with
      | .going _ => none
      | .ended o =>
        match o.failure with
        | some failure => some ⟨files, o.sink, .error (.running loaded.name failure)⟩
        | none => some (finish script files o.sink)

end Pipeline

end TinyScript
