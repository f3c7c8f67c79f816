/-!
# Files

A tree of files and directories with a working directory in it, and the operations on it.

* `Path`       paths as texts, and the names that are between their slashes
* `FileTree`   the tree: reading, writing, and making directories

The place of an entry is the list of the steps that lead to it from the working directory.  All
steps up stand in front, and an absolute place starts at the root.
-/

namespace TinyScript

inductive FileError where
  | notFound
  | exists
  | notADirectory
  | isADirectory
  | nameTooLong
  /-- a path with the character that ends texts of the system -/
  | nulInPath
  | other (reason : String)
deriving DecidableEq, Repr

def FileError.message : FileError → String
  | .notFound => "No such file or directory (os error 2)"
  | .exists => "File exists (os error 17)"
  | .notADirectory => "Not a directory (os error 20)"
  | .isADirectory => "Is a directory (os error 21)"
  | .nameTooLong => "File name too long (os error 36)"
  | .nulInPath => "file name contained an unexpected NUL byte"
  | .other reason => reason

namespace Path

/-- the parts of a text between slashes; `current` is the part before it, the last letter first -/
def parts : (current : List Char) → List Char → List String
  | current, [] => [String.ofList current.reverse]
  | current, '/' :: cs => String.ofList current.reverse :: parts [] cs
  | current, c :: cs => parts (c :: current) cs

def rootStep : String := "/"

def upStep : String := ".."

def steps (path : String) : List String :=
  let names := (parts [] path.toList).filter (· ≠ "")
  if path.toList.head? = some '/' then rootStep :: names else names

def endsInSlash (path : String) : Bool := path.toList.getLast? == some '/'

def join (directory name : String) : String :=
  if endsInSlash directory then directory ++ name else directory ++ "/" ++ name

def fileName? (path : String) : Option String :=
  match ((steps path).filter (· ≠ ".")).getLast? with
  | some name => if name = upStep then none else some name
  | none => none

/-- what follows the last point of a name, if something precedes it -/
def extension? (name : String) : Option String :=
  match name.toList.reverse.dropWhile (· != '.') with
  | '.' :: _ :: _ => some (String.ofList (name.toList.reverse.takeWhile (· != '.')).reverse)
  | _ => none

/-- whether the name of a file ends in this extension, in capital or small letters -/
def hasExtension (extension path : String) : Bool :=
  match (fileName? path).bind extension? with
  | some e => e.toList.map Char.toLower == extension.toList
  | none => false

/-- the bytes that one step may have -/
def stepLimit : Nat := 255

/-- the bytes that a path may have -/
def limit : Nat := 4095

/-- A path has to pass this test before the system looks at any step of it. -/
def check (path : String) : Except FileError Unit :=
  if '\x00' ∈ path.toList then .error .nulInPath
  else if limit < path.utf8ByteSize then .error .nameTooLong
  else .ok ()

/-- The directories around a path, the innermost first, and the path itself in front. -/
def ancestors (path : String) : List (List String) :=
  let names := (steps path).filter (· ≠ ".")
  let around := (List.range names.length).reverse.map names.take
  steps path :: around.filter fun names => names ≠ [] ∧ names ≠ [rootStep]

end Path

inductive Entry where
  | file (content : ByteArray)
  | directory

def Entry.decEq : (a b : Entry) → Decidable (a = b)
  | .file x, .file y =>
    if h : x.data = y.data then isTrue (by rw [ByteArray.ext h])
    else isFalse (fun e => h (congrArg ByteArray.data (Entry.file.inj e)))
  | .directory, .directory => isTrue rfl
  | .file _, .directory | .directory, .file _ => isFalse (by simp)

instance : DecidableEq Entry := Entry.decEq

/-- What there is besides the working directory, the directories around it and the root, each entry
with its place. -/
structure FileTree where
  entries : List (List String × Entry) := []

namespace FileTree

def isGiven (place : List String) : Bool :=
  place == [Path.rootStep] || place.all (· == Path.upStep)

def isBelow (place : List String) : Bool :=
  place.head? != some Path.rootStep && place.head? != some Path.upStep

def find? (tree : FileTree) (place : List String) : Option Entry :=
  if isGiven place then some .directory else tree.entries.lookup place

/-- the entries with another one at a place, which comes last if it is new -/
def setEntry (place : List String) (e : Entry) :
    List (List String × Entry) → List (List String × Entry)
  | [] => [(place, e)]
  | (place', e') :: rest =>
    if place = place' then (place, e) :: rest else (place', e') :: setEntry place e rest

def set (tree : FileTree) (place : List String) (e : Entry) : FileTree :=
  ⟨setEntry place e tree.entries⟩

/-- The place one step up.  There is nothing above the root. -/
def moveUp (place : List String) : List String :=
  if place = [Path.rootStep] then place
  else if isGiven place then place ++ [Path.upStep]
  else place.dropLast

def move (place : List String) (step : String) : List String :=
  if step = "." then place
  else if step = Path.upStep then moveUp place
  else place ++ [step]

/-- The place at the end of some steps, all but the last of which have to lead to directories. -/
def walk (tree : FileTree) : (place : List String) → (steps : List String) →
    Except FileError (List String)
  | place, [] => .ok place
  | place, step :: steps =>
    match tree.find? place with
    | some .directory =>
      if Path.stepLimit < step.utf8ByteSize then .error .nameTooLong
      else walk tree (move place step) steps
    | some (.file _) => .error .notADirectory
    | none => .error .notFound

def isDirectory (tree : FileTree) (steps : List String) : Bool :=
  match tree.walk [] steps with
  | .ok place => tree.find? place == some .directory
  | .error _ => false

/-- A slash at the end of a path asks for a directory. -/
def read (tree : FileTree) (path : String) : Except FileError ByteArray := do
  Path.check path
  let last := if Path.endsInSlash path then ["."] else []
  match tree.find? (← tree.walk [] (Path.steps path ++ last)) with
  | some (.file content) => .ok content
  | some .directory => .error .isADirectory
  | none => .error .notFound

def write (tree : FileTree) (path : String) (content : ByteArray) :
    Except FileError FileTree := do
  Path.check path
  let place ← tree.walk [] (Path.steps path)
  match tree.find? place with
  | some .directory => .error .isADirectory
  | _ => .ok (tree.set place (.file content))

def makeDirectory (tree : FileTree) (steps : List String) : Except FileError FileTree := do
  let place ← tree.walk [] steps
  match tree.find? place with
  | some _ => .error .exists
  | none => .ok (tree.set place .directory)

/-- Makes the first of some directories, and those that follow it in the list as far as they are
needed.  What is made stays there if something fails later. -/
def makeFirst (tree : FileTree) : List (List String) → FileTree × Option FileError
  | [] => (tree, none)
  | steps :: around =>
    match tree.makeDirectory steps with
    | .ok made => (made, none)
    | .error .notFound =>
      match makeFirst tree around with
      | (tree, none) =>
        match tree.makeDirectory steps with
        | .ok made => (made, none)
        | .error e => (tree, if tree.isDirectory steps then none else some e)
      | (tree, some e) => (tree, some e)
    | .error e => (tree, if tree.isDirectory steps then none else some e)

def makeDirectories (tree : FileTree) (path : String) : FileTree × Option FileError :=
  match Path.check path with
  | .ok () => tree.makeFirst (Path.ancestors path)
  | .error e => (tree, some e)

def place (tree : FileTree) (names : List String) (e : Entry) : FileTree :=
  let around := (List.range names.length).map names.take
  let tree := around.foldl (fun tree d =>
    if (tree.find? d).isSome then tree else tree.set d .directory) tree
  tree.set names e

/-- the entries below the working directory that another tree has not or has with other content -/
def changedSince (tree before : FileTree) : List (List String × Entry) :=
  tree.entries.filter fun (place, e) => isBelow place && before.find? place != some e

end FileTree

end TinyScript
