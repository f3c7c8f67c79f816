import TinyScript.Json.Skip

/-!
# Records, variants and lists

How a value of a known shape stands in a document:

* a `Record` is an object with one member per field, in any order, or the list of the fields;
* a value with a tag is an object whose only member has the name of the tag;
* a list is a list.

Opening a bracket is the business of the caller: it knows how many may still be opened, and uses the
readers whose names start with `no` where it is none.
-/

namespace TinyScript.Json

/-! ## Lists -/

/-- Whether another element follows in an open list, and the text at it or at the bracket. -/
def nextElement (first : Bool) (cs : List Char) : Except Fault (Bool × List Char) :=
  match first, skipBlanks cs with
  | _, [] => .error .endOfList
  | _, ']' :: cs => .ok (false, ']' :: cs)
  | true, cs => .ok (true, cs)
  | false, ',' :: cs =>
    match skipBlanks cs with
    | [] => .error .endOfValue
    | ']' :: _ => .error .trailingComma
    | cs => .ok (true, cs)
  | false, _ => .error .expectedListEnd

def endList (cs : List Char) : Except Fault (List Char) :=
  match skipBlanks cs with
  | ']' :: cs => .ok cs
  | [] => .error .endOfList
  | ',' :: cs =>
    match skipBlanks cs with
    | ']' :: _ => .error .trailingComma
    | _ => .error .trailingCharacters
  | _ => .error .trailingCharacters

def elements {α : Type} (element : Reader α) : (fuel : Nat) → (first : Bool) → Reader (List α)
  | 0, _, _ => .error .endOfList
  | fuel + 1, first, cs => do
    let (more, cs) ← nextElement first cs
    if more then
      let (a, cs) ← element cs
      let (as, cs) ← elements element fuel false cs
      return (a :: as, cs)
    else return ([], ← endList cs)

namespace Reader

def list {α : Type} (element : Reader α) : Reader (List α) := fun cs =>
  match skipBlanks cs with
  | '[' :: cs => elements element (cs.length + 1) true cs
  | cs => .error (wrongType "a sequence" cs)

def noList {α : Type} : Reader α := fun cs =>
  match skipBlanks cs with
  | '[' :: _ => .error .tooDeep
  | cs => .error (wrongType "a sequence" cs)

def optional {α : Type} (reader : Reader α) : Reader (Option α) := fun cs =>
  match skipBlanks cs with
  | 'n' :: cs => do return (none, ← letters ['u', 'l', 'l'] cs)
  | cs => Reader.map some reader cs

end Reader

/-! ## Records -/

/-- A field of a record of which the parts read so far are a `σ`. -/
structure Field (σ : Type) where
  name : String
  /-- whether a list of the fields may end before it -/
  last : Bool
  given : σ → Bool
  read : σ → Reader σ

/-- a field that is kept in one place of the parts -/
def Field.at {σ α : Type} (name : String) (last : Bool) (get : σ → Option α) (set : σ → α → σ)
    (reader : Reader α) : Field σ :=
  ⟨name, last, fun parts => (get parts).isSome, fun parts => Reader.map (set parts) reader⟩

/-- A kind of record: what messages call it, its fields in order, and the value of its parts. -/
structure Record (σ α : Type) where
  title : String
  fields : List (Field σ)
  empty : σ
  build : σ → Except Fault α

def required {α : Type} (name : String) (part : Option α) : Except Fault α :=
  match part with
  | some a => .ok a
  | none => .error (.missingField name)

/-- The name of the next member of an open object, unless the object ends here. -/
def nextName (first : Bool) (cs : List Char) : Except Fault (Option String × List Char) :=
  match first, skipBlanks cs with
  | _, [] => .error .endOfObject
  | _, '\x7d' :: cs => .ok (none, cs)
  | true, '"' :: cs => Reader.map some textBody cs
  | true, _ => .error .keyNotText
  | false, ',' :: cs =>
    match skipBlanks cs with
    | [] => .error .endOfValue
    | '"' :: cs => Reader.map some textBody cs
    | '\x7d' :: _ => .error .trailingComma
    | _ => .error .keyNotText
  | false, _ => .error .expectedObjectEnd

/-- The parts in the members of an open object.  Members of other names are passed over. -/
def members {σ : Type} (fields : List (Field σ)) :
    (fuel : Nat) → (first : Bool) → (parts : σ) → Reader σ
  | 0, _, _, _ => .error .endOfObject
  | fuel + 1, first, parts, cs => do
    match ← nextName first cs with
    | (none, cs) => return (parts, cs)
    | (some name, cs) =>
      match fields.find? fun field => field.name == name with
      | none => members fields fuel false parts (← skipValue (← colon cs))
      | some field =>
        if field.given parts then .error (.duplicateField name)
        else
          let (parts, cs) ← field.read parts (← colon cs)
          members fields fuel false parts cs

/-- The parts in the elements of an open list, of which the first `index` are read.  `whole` is what
a list of all of them is called. -/
def listed {σ : Type} (whole : String) :
    (index : Nat) → List (Field σ) → (parts : σ) → Reader σ
  | _, [], parts, cs => do return (parts, ← endList cs)
  | index, field :: fields, parts, cs => do
    let (more, cs) ← nextElement (index == 0) cs
    if more then
      let (parts, cs) ← field.read parts cs
      listed whole (index + 1) fields parts cs
    else if field.last then return (parts, ← endList cs)
    else .error (.invalidLength index whole)

/-- what the list of all fields is called -/
def Record.whole {σ α : Type} (record : Record σ α) : String :=
  record.title ++ " with " ++ Decimal.integer record.fields.length ++
    if record.fields.length = 1 then " element" else " elements"

/-- the value of the parts that are read, in front of what follows them -/
def Record.finish {σ α : Type} (record : Record σ α) (read : σ × List Char) :
    Except Fault (α × List Char) :=
  (record.build read.1).map fun a => (a, read.2)

namespace Reader

def record {σ α : Type} (record : Record σ α) : Reader α := fun cs =>
  match skipBlanks cs with
  | '\x7b' :: cs =>
    members record.fields (cs.length + 1) true record.empty cs >>= record.finish
  | '[' :: cs => listed record.whole 0 record.fields record.empty cs >>= record.finish
  | cs => .error (wrongType record.title cs)

def noRecord {α : Type} (title : String) : Reader α := fun cs =>
  match skipBlanks cs with
  | '\x7b' :: _ | '[' :: _ => .error .tooDeep
  | cs => .error (wrongType title cs)

end Reader

/-! ## Tags -/

/-- what follows a tag -/
inductive Content where
  | single
  | record
deriving DecidableEq

def Content.title : Content → String
  | .single => "newtype variant"
  | .record => "struct variant"

structure Tags (τ : Type) where
  all : List τ
  name : τ → String
  content : τ → Content

def Tags.names {τ : Type} (tags : Tags τ) : List String := tags.all.map tags.name

def Tags.find {τ : Type} (tags : Tags τ) (name : String) : Except Fault τ :=
  match tags.all.find? fun tag => tags.name tag == name with
  | some tag => .ok tag
  | none => .error (.unknownVariant name tags.names)

/-- a tag whose content is missing -/
def bareTag {τ α : Type} (tags : Tags τ) : Reader α := fun cs => do
  let (name, _) ← textBody cs
  let tag ← tags.find name
  .error (.invalidType .unitVariant (tags.content tag).title)

def endTagged (cs : List Char) : Except Fault (List Char) :=
  match skipBlanks cs with
  | '\x7d' :: cs => .ok cs
  | [] => .error .endOfObject
  | _ => .error .expectedValue

namespace Reader

/-- a value with a tag, of which `content` reads what follows the tag -/
def tagged {τ α : Type} (tags : Tags τ) (content : τ → Reader α) : Reader α := fun cs =>
  match skipBlanks cs with
  | '\x7b' :: cs => do
    match ← nextName true cs with
    | (none, _) => .error .expectedValue
    | (some name, cs) =>
      let tag ← tags.find name
      let (a, cs) ← content tag (← colon cs)
      return (a, ← endTagged cs)
  | '"' :: cs => bareTag tags cs
  | [] => .error .endOfValue
  | _ => .error .expectedValue

def noTagged {τ α : Type} (tags : Tags τ) : Reader α := fun cs =>
  match skipBlanks cs with
  | '\x7b' :: _ => .error .tooDeep
  | '"' :: cs => bareTag tags cs
  | [] => .error .endOfValue
  | _ => .error .expectedValue

end Reader

def ofDocument {α : Type} (reader : Reader α) (document : String) : Except Fault α := do
  let (a, cs) ← reader document.toList
  if (skipBlanks cs).isEmpty then return a else .error .trailingCharacters

end TinyScript.Json
