import TinyScript.Json.Scalar

/-!
# Passing over values

A member of an object that nothing is made of still has to be a value.  Less is asked of it than of
one that is used: its numbers may be of any size, halves of surrogate pairs may stand alone, and any
number of brackets may be open.

`skipFrom` runs through a text with a stack of the open brackets.  `Place` says what stood before.
-/

namespace TinyScript.Json

def skipText : List Char → Except Fault (List Char)
  | [] | ['\\'] => .error .endOfText
  | '"' :: cs => .ok cs
  | '\\' :: 'u' :: a :: b :: c :: d :: cs =>
    if (hex4? a b c d).isSome then skipText cs else .error .invalidEscape
  | '\\' :: 'u' :: cs => .error (shortHex cs)
  | '\\' :: letter :: cs =>
    if (unescaped? letter).isSome then skipText cs else .error .invalidEscape
  | c :: cs => if c.toNat < 0x20 then .error .controlCharacter else skipText cs

def skipExponent (cs : List Char) : Except Fault (List Char) :=
  match cs with
  | 'e' :: cs | 'E' :: cs => (exponentPart cs).map Prod.snd
  | cs => .ok cs

/-- a number behind its sign; whatever is missing in it, it is the number that is wrong -/
def skipNumber (cs : List Char) : Except Fault (List Char) :=
  Except.mapError (fun _ => .invalidNumber) do
    match (← wholeDigits cs).2 with
    | '.' :: cs => skipExponent (← someDigits cs).2
    | cs => skipExponent cs

def skipScalar (cs : List Char) : Except Fault (List Char) :=
  match cs with
  | [] => .error .endOfValue
  | 'n' :: cs => letters ['u', 'l', 'l'] cs
  | 't' :: cs => letters ['r', 'u', 'e'] cs
  | 'f' :: cs => letters ['a', 'l', 's', 'e'] cs
  | '"' :: cs => skipText cs
  | '-' :: cs => skipNumber cs
  | c :: cs => if c.isDigit then skipNumber (c :: cs) else .error .expectedValue

inductive Bracket where
  | list
  | object
deriving DecidableEq

def Bracket.closing : Bracket → Char
  | .list => ']'
  | .object => '\x7d'

def Bracket.atEnd : Bracket → Fault
  | .list => .endOfList
  | .object => .endOfObject

def Bracket.notClosed : Bracket → Fault
  | .list => .expectedListEnd
  | .object => .expectedObjectEnd

def colon (cs : List Char) : Except Fault (List Char) :=
  match skipBlanks cs with
  | ':' :: cs => .ok cs
  | [] => .error .endOfObject
  | _ => .error .expectedColon

/-- what has to stand before a value inside the brackets -/
def Bracket.skipName (bracket : Bracket) (cs : List Char) : Except Fault (List Char) :=
  match bracket, skipBlanks cs with
  | .list, cs => .ok cs
  | .object, '"' :: cs => do colon (← skipText cs)
  | .object, [] => .error .endOfObject
  | .object, _ => .error .keyNotText

/-- what was passed over last -/
inductive Place where
  | before
  | opening
  | behind
deriving DecidableEq

/-- Passes over the rest of a value of which the brackets `enclosing` are open.  Every second step
takes a character, so `fuel` need not be more than twice the length of the text. -/
def skipFrom : (fuel : Nat) → (enclosing : List Bracket) → Place → List Char →
    Except Fault (List Char)
  | 0, _, _, _ => .error .endOfValue
  | fuel + 1, enclosing, .before, cs =>
    match skipBlanks cs with
    | '[' :: cs => skipFrom fuel (.list :: enclosing) .opening cs
    | '\x7b' :: cs => skipFrom fuel (.object :: enclosing) .opening cs
    | cs => do skipFrom fuel enclosing .behind (← skipScalar cs)
  | _ + 1, [], _, cs => .ok cs
  | fuel + 1, bracket :: enclosing, place, cs =>
    match skipBlanks cs with
    | [] => .error bracket.atEnd
    | c :: cs =>
      if c = bracket.closing then skipFrom fuel enclosing .behind cs
      else if place = .opening then do
        skipFrom fuel (bracket :: enclosing) .before (← bracket.skipName (c :: cs))
      else if c = ',' then do skipFrom fuel (bracket :: enclosing) .before (← bracket.skipName cs)
      else .error bracket.notClosed

def skipValue (cs : List Char) : Except Fault (List Char) :=
  skipFrom (2 * cs.length + 2) [] .before cs

end TinyScript.Json
