import TinyScript.Json.Fault

/-!
# Reading words, texts and numbers

A `Reader` takes a value off the front of a text or says what is wrong there.  The readers of this
module take the values that contain no others; what stands behind a value is the business of the
reader of the list or object around it.
-/

namespace TinyScript.Json

abbrev Reader (α : Type) := List Char → Except Fault (α × List Char)

/-- the same reading with another value made of what is read -/
def Reader.map {α β : Type} (f : α → β) (reader : Reader α) : Reader β := fun cs =>
  (reader cs).map fun (a, rest) => (f a, rest)

def isBlank (c : Char) : Bool := c == ' ' || c == '\n' || c == '\t' || c == '\r'

def skipBlanks (cs : List Char) : List Char := cs.dropWhile isBlank

def letters : (word : List Char) → List Char → Except Fault (List Char)
  | [], cs => .ok cs
  | _ :: _, [] => .error .endOfValue
  | w :: word, c :: cs => if c = w then letters word cs else .error .expectedWord

/-! ## Texts -/

def unescaped? (letter : Char) : Option Char :=
  match letter with
  | '"' => some '"'
  | '\\' => some '\\'
  | '/' => some '/'
  | 'b' => some '\x08'
  | 'f' => some '\x0c'
  | 'n' => some '\n'
  | 'r' => some '\r'
  | 't' => some '\t'
  | _ => none

def hexDigit? (c : Char) : Option Nat :=
  if c.isDigit then some (c.toNat - '0'.toNat)
  else if 'a' ≤ c ∧ c ≤ 'f' then some (c.toNat - 'a'.toNat + 10)
  else if 'A' ≤ c ∧ c ≤ 'F' then some (c.toNat - 'A'.toNat + 10)
  else none

def hex4? (a b c d : Char) : Option Nat :=
  match hexDigit? a, hexDigit? b, hexDigit? c, hexDigit? d with
  | some a, some b, some c, some d => some (((a * 16 + b) * 16 + c) * 16 + d)
  | _, _, _, _ => none

def shortHex (cs : List Char) : Fault :=
  if cs.foldr (fun c n => c.utf8Size + n) 0 < 4 then .endOfText else .invalidEscape

def isHighSurrogate (n : Nat) : Bool := 0xD800 ≤ n && n ≤ 0xDBFF
def isLowSurrogate (n : Nat) : Bool := 0xDC00 ≤ n && n ≤ 0xDFFF

/-- the character that a pair of surrogates stands for -/
def ofSurrogates (high low : Nat) : Char :=
  Char.ofNat ((high - 0xD800) * 0x400 + (low - 0xDC00) + 0x10000)

/-- A text behind its opening quote and what follows it.  After the first half of a pair of
surrogates the other half has to come next. -/
def textChars : (high : Option Nat) → List Char → Except Fault (List Char × List Char)
  | none, [] => .error .endOfText
  | none, '"' :: cs => .ok ([], cs)
  | none, '\\' :: [] => .error .endOfText
  | none, '\\' :: 'u' :: a :: b :: c :: d :: cs =>
    match hex4? a b c d with
    | none => .error .invalidEscape
    | some n =>
      if isLowSurrogate n then .error .loneSurrogate
      else if isHighSurrogate n then textChars (some n) cs
      else (textChars none cs).map fun (s, rest) => (Char.ofNat n :: s, rest)
  | none, '\\' :: 'u' :: cs => .error (shortHex cs)
  | none, '\\' :: letter :: cs =>
    match unescaped? letter with
    | some c => (textChars none cs).map fun (s, rest) => (c :: s, rest)
    | none => .error .invalidEscape
  | none, c :: cs =>
    if c.toNat < 0x20 then .error .controlCharacter
    else (textChars none cs).map fun (s, rest) => (c :: s, rest)
  | some high, '\\' :: 'u' :: a :: b :: c :: d :: cs =>
    match hex4? a b c d with
    | none => .error .invalidEscape
    | some n =>
      if isLowSurrogate n then
        (textChars none cs).map fun (s, rest) => (ofSurrogates high n :: s, rest)
      else .error .loneSurrogate
  | some _, '\\' :: 'u' :: cs => .error (shortHex cs)
  | some _, [] | some _, ['\\'] => .error .endOfText
  | some _, _ => .error .endOfSurrogate

def textBody : Reader String := fun cs =>
  (textChars none cs).map fun (s, rest) => (String.ofList s, rest)

/-! ## Numbers -/

inductive Number where
  | whole (n : Int)
  | real (x : Float)
deriving DecidableEq

/-- The digits that fit an unsigned 64-bit number behind `significand`, and how many did not.  The
first digit that does not fit ends the number; the rest are dropped. -/
def accumulate (significand : Nat) : List Char → Nat × Nat
  | [] => (significand, 0)
  | d :: ds =>
    let next := significand * 10 + (d.toNat - '0'.toNat)
    if next < 18446744073709551616 then accumulate next ds else (significand, ds.length + 1)

/-- a power of ten as the double closest to it -/
def powerOfTen (n : Nat) : Float := Float.ofScientific 1 false n

/-- The double of `significand · 10 ^ exponent`: the significand is rounded to a double first and
then multiplied or divided by a power of ten, or by two of them where one would be too large.  So
the result can be off in its last digit. -/
def scaled (significand : Nat) (exponent : Int) : Except Fault Float :=
  let x := Float.ofNat significand
  if 0 ≤ exponent then
    if exponent ≤ 308 then
      let y := x * powerOfTen exponent.toNat
      if y.isInf then .error .numberOutOfRange else .ok y
    else if x == 0 then .ok x
    else .error .numberOutOfRange
  else if -308 ≤ exponent then .ok (x / powerOfTen (-exponent).toNat)
  else if -616 ≤ exponent then .ok (x / powerOfTen 308 / powerOfTen (-exponent - 308).toNat)
  else .ok 0

def signedReal (negative : Bool) (x : Float) : Number := .real (if negative then -x else x)

/-- the digits of the whole part: a zero stands alone -/
def wholeDigits (cs : List Char) : Except Fault (List Char × List Char) :=
  match cs with
  | '0' :: c :: cs => if c.isDigit then .error .invalidNumber else .ok (['0'], c :: cs)
  | ['0'] => .ok (['0'], [])
  | c :: cs =>
    if c.isDigit then .ok (c :: cs.takeWhile Char.isDigit, cs.dropWhile Char.isDigit)
    else .error .invalidNumber
  | [] => .error .endOfValue

def someDigits (cs : List Char) : Except Fault (List Char × List Char) :=
  match cs with
  | [] => .error .endOfValue
  | c :: _ =>
    if c.isDigit then .ok (cs.takeWhile Char.isDigit, cs.dropWhile Char.isDigit)
    else .error .invalidNumber

def exponentPart (cs : List Char) : Except Fault (Int × List Char) :=
  match cs with
  | '-' :: cs => (someDigits cs).map fun (ds, rest) => (-(Nat.ofDigitChars 10 ds 0 : Int), rest)
  | '+' :: cs => (someDigits cs).map fun (ds, rest) => ((Nat.ofDigitChars 10 ds 0 : Int), rest)
  | cs => (someDigits cs).map fun (ds, rest) => ((Nat.ofDigitChars 10 ds 0 : Int), rest)

/-- what follows the digits of a number with a point or an exponent -/
def realTail (negative : Bool) (significand : Nat) (exponent : Int) (cs : List Char) :
    Except Fault (Number × List Char) :=
  match cs with
  | 'e' :: cs | 'E' :: cs => do
    let (shift, rest) ← exponentPart cs
    let x ← scaled significand (exponent + shift)
    return (signedReal negative x, rest)
  | cs => do
    let x ← scaled significand exponent
    return (signedReal negative x, cs)

/-- A whole number that fits a 64-bit word stays one.  A zero with a sign is a double, because only
a double can keep the sign. -/
def wholeOrReal (negative : Bool) (significand : Nat) : Number :=
  if negative then
    if 0 < significand ∧ significand ≤ 9223372036854775808 then .whole (-significand)
    else .real (-(Float.ofNat significand))
  else .whole significand

def unsigned (negative : Bool) (cs : List Char) : Except Fault (Number × List Char) := do
  let (digits, rest) ← wholeDigits cs
  let (significand, dropped) := accumulate 0 digits
  match rest with
  | '.' :: cs => do
    let (fraction, rest) ← someDigits cs
    let (significand, ignored) := accumulate significand fraction
    realTail negative significand (dropped - (fraction.length - ignored : Nat)) rest
  | 'e' :: _ | 'E' :: _ => realTail negative significand dropped rest
  | rest =>
    if dropped = 0 then return (wholeOrReal negative significand, rest)
    else realTail negative significand dropped rest

def number : Reader Number := fun cs =>
  match cs with
  | '-' :: cs => unsigned true cs
  | cs => unsigned false cs

def startsNumber (c : Char) : Bool := c == '-' || c.isDigit

/-! ## Values in the place of others -/

def Number.found : Number → Found
  | .whole n => .integer n
  | .real x => .float x

/-- The fault of a value that is not of the expected shape.  A word, a text or a number is read
first, so that a fault inside it comes before the one of its shape. -/
def wrongType (expected : String) (cs : List Char) : Fault :=
  let ofRead {α : Type} (found : α → Found) (r : Except Fault α) : Fault :=
    match r with
    | .ok a => .invalidType (found a) expected
    | .error fault => fault
  match cs with
  | [] => .endOfValue
  | 'n' :: cs => ofRead (fun _ => .null) (letters ['u', 'l', 'l'] cs)
  | 't' :: cs => ofRead (fun _ => .boolean true) (letters ['r', 'u', 'e'] cs)
  | 'f' :: cs => ofRead (fun _ => .boolean false) (letters ['a', 'l', 's', 'e'] cs)
  | '"' :: cs => ofRead (fun s => .text s.1) (textBody cs)
  | '[' :: _ => .invalidType .sequence expected
  | '\x7b' :: _ => .invalidType .map expected
  | c :: cs =>
    if startsNumber c then ofRead (fun n => n.1.found) (number (c :: cs)) else .expectedValue

/-! ## Readers -/

namespace Reader

def text : Reader String := fun cs =>
  match skipBlanks cs with
  | '"' :: cs => textBody cs
  | cs => .error (wrongType "a string" cs)

/-- a number, turned into what is wanted -/
def numeric {α : Type} (expected : String) (convert : Number → Except Fault α) : Reader α :=
  fun cs =>
    match skipBlanks cs with
    | [] => .error .endOfValue
    | c :: cs =>
      if startsNumber c then do
        let (n, rest) ← number (c :: cs)
        let a ← convert n
        return (a, rest)
      else .error (wrongType expected (c :: cs))

def int32 : Reader Int32 :=
  numeric "i32" fun n =>
    match n with
    | .whole n =>
      if -2147483648 ≤ n ∧ n < 2147483648 then .ok (Int32.ofInt n)
      else .error (.invalidValue n "i32")
    | .real x => .error (.invalidType (.float x) "i32")

def double : Reader Float :=
  numeric "f64" fun n =>
    match n with
    | .whole n => .ok (Float.ofInt n)
    | .real x => .ok x

end Reader

end TinyScript.Json
