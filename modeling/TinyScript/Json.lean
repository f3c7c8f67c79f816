import TinyScript.Decimal.Integer
import TinyScript.Decimal.Layout

/-!
# JSON documents

The values that the interchange form of a program is made of, and `Json.pretty`, which writes one
with an indentation of two blanks, a member or an element to a line.  Members keep their order.
-/

namespace TinyScript

inductive Json where
  | null
  | int (n : Int)
  | float (x : Float)
  | text (s : String)
  | array (elements : List Json)
  | object (members : List (String × Json))

namespace Json

def shortEscape (c : Char) : Option Char :=
  match c with
  | '"' => some '"'
  | '\\' => some '\\'
  | '\x08' => some 'b'
  | '\x0c' => some 'f'
  | '\n' => some 'n'
  | '\r' => some 'r'
  | '\t' => some 't'
  | _ => none

/-- four hexadecimal digits, of which only two can be other than zero -/
def hexByte (n : Nat) : List Char :=
  ['0', '0', Nat.digitChar (n / 16 % 16), Nat.digitChar (n % 16)]

/-- a character inside a text: only quotes, backslashes and control characters are escaped -/
def escaped (c : Char) : List Char :=
  match shortEscape c with
  | some letter => ['\\', letter]
  | none => if c.toNat < 0x20 then '\\' :: 'u' :: hexByte c.toNat else [c]

def quoted (s : String) : List Char := '"' :: s.toList.flatMap escaped ++ ['"']

/-- a double; what is not finite has no number in a document -/
def float? (x : Float) : List Char :=
  match Binary64.ofFloat x with
  | .finite .. => Decimal.Layout.json.write x
  | _ => ['n', 'u', 'l', 'l']

/-- the start of a line inside `depth` open brackets -/
def newline (depth : Nat) : List Char := '\n' :: List.replicate (2 * depth) ' '

mutual

/-- a value inside `depth` open brackets, in front of `rest` -/
def pretty (depth : Nat) (rest : List Char) : Json → List Char
  | .null => 'n' :: 'u' :: 'l' :: 'l' :: rest
  | .int n => Decimal.integerDigits n ++ rest
  | .float x => float? x ++ rest
  | .text s => quoted s ++ rest
  | .array [] => '[' :: ']' :: rest
  | .array (j :: js) =>
    '[' :: newline (depth + 1) ++
      pretty (depth + 1) (prettyElements (depth + 1) (newline depth ++ ']' :: rest) js) j
  | .object [] => '\x7b' :: '\x7d' :: rest
  | .object ((name, j) :: members) =>
    '\x7b' :: newline (depth + 1) ++ quoted name ++ ':' :: ' ' ::
      pretty (depth + 1) (prettyMembers (depth + 1) (newline depth ++ '\x7d' :: rest) members) j

def prettyElements (depth : Nat) (rest : List Char) : List Json → List Char
  | [] => rest
  | j :: js => ',' :: newline depth ++ pretty depth (prettyElements depth rest js) j

def prettyMembers (depth : Nat) (rest : List Char) : List (String × Json) → List Char
  | [] => rest
  | (name, j) :: members =>
    ',' :: newline depth ++ quoted name ++ ':' :: ' ' ::
      pretty depth (prettyMembers depth rest members) j

end

mutual

def nesting : Json → Nat
  | .array js => nestingElements js + 1
  | .object members => nestingMembers members + 1
  | _ => 0

def nestingElements : List Json → Nat
  | [] => 0
  | j :: js => max (nesting j) (nestingElements js)

def nestingMembers : List (String × Json) → Nat
  | [] => 0
  | (_, j) :: members => max (nesting j) (nestingMembers members)

end

end Json

end TinyScript
