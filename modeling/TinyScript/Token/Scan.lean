import TinyScript.SourceError
import TinyScript.Text.Blank

/-!
# Scanning a source text

`scan` cuts a source text into tokens.  Blanks and comments separate tokens and are dropped; a token
is the longest lexical item that starts where the last one, with the blanks and comments behind it,
has ended.  The scan stops at the first character that starts or continues no item.
-/

namespace TinyScript

/-- The tokens of a source text up to its end, or up to an error; the end is on the last line. -/
structure Scan where
  tokens : List Located
  stop : Except SourceError Nat

namespace Scan

/-! ## Blanks and comments -/

/-- The text behind the blanks and comments at its start, and the line on which it goes on.  A
comment starts at `#` and ends with its line. -/
def skipBlanks (line : Nat) (inComment : Bool) : List Char → Nat × List Char
  | [] => (line, [])
  | '\n' :: cs => skipBlanks (line + 1) false cs
  | c :: cs =>
    if inComment || Text.isBlank c then skipBlanks line inComment cs
    else if c = '#' then skipBlanks line true cs
    else (line, c :: cs)

/-! ## Single items -/

def startsWord (c : Char) : Bool := c.isAlpha || c == '_'

def continuesWord (c : Char) : Bool := c.isAlphanum || c == '_'

def word (name : String) : Token :=
  match Keyword.ofSpelling? name with
  | some k => .keyword k
  | none => .ident name

/-- the number that is written with digits alone, if it fits 32 bits -/
def wholeNumber (digits : List Char) : Except SourceError.Cause Token :=
  let n := Nat.ofDigitChars 10 digits 0
  if n < 2147483648 then .ok (.int (Int32.ofInt n))
  else .error (.numberOutOfRange (String.ofList digits))

/-- the double closest to the number that is written with digits around a point -/
def fractionalNumber (digits fraction : List Char) : Token :=
  .float (Float.ofScientific (Nat.ofDigitChars 10 (digits ++ fraction) 0) true fraction.length)

def number (cs : List Char) : Except SourceError.Cause (Token × List Char) :=
  let digits := cs.takeWhile Char.isDigit
  match cs.dropWhile Char.isDigit with
  | '.' :: rest =>
    let fraction := rest.takeWhile Char.isDigit
    if fraction.isEmpty then .error (.unexpectedChar '.')
    else .ok (fractionalNumber digits fraction, rest.dropWhile Char.isDigit)
  | rest => (wholeNumber digits).map (·, rest)

def textLiteral (cs : List Char) : Except SourceError.Cause (Token × List Char) :=
  match cs.dropWhile (· != '"') with
  | [] => .error .unterminatedText
  | _ :: rest => .ok (.text (String.ofList (cs.takeWhile (· != '"'))), rest)

/-- an operator of one character, or of two if `=` follows -/
def orEqual (single paired : Token) (cs : List Char) : Token × List Char :=
  match cs with
  | '=' :: rest => (paired, rest)
  | _ => (single, cs)

/-- an operator that is the same character twice -/
def doubled (c : Char) (op : Operator) (cs : List Char) :
    Except SourceError.Cause (Token × List Char) :=
  match cs with
  | [] => .error (.unexpectedChar c)
  | c' :: rest => if c' = c then .ok (.op op, rest) else .error (.unexpectedChar c)

/-- the item that starts with the character `c`, and what follows it -/
def item (c : Char) (cs : List Char) : Except SourceError.Cause (Token × List Char) :=
  match c with
  | '(' => .ok (.mark .leftParen, cs)
  | ')' => .ok (.mark .rightParen, cs)
  | '\x7b' => .ok (.mark .leftBrace, cs)
  | '\x7d' => .ok (.mark .rightBrace, cs)
  | ';' => .ok (.mark .semicolon, cs)
  | '+' => .ok (.op .add, cs)
  | '-' => .ok (.op .sub, cs)
  | '*' => .ok (.op .mul, cs)
  | '/' => .ok (.op .div, cs)
  | '=' => .ok (orEqual (.mark .assign) (.op .eq) cs)
  | '!' => .ok (orEqual (.mark .bang) (.op .ne) cs)
  | '<' => .ok (orEqual (.op .lt) (.op .le) cs)
  | '>' => .ok (orEqual (.op .gt) (.op .ge) cs)
  | '&' => doubled '&' .and cs
  | '|' => doubled '|' .or cs
  | '"' => textLiteral cs
  | c =>
    if c.isDigit then number (c :: cs)
    else if startsWord c then
      .ok (word (String.ofList (c :: cs.takeWhile continuesWord)), cs.dropWhile continuesWord)
    else .error (.unexpectedChar c)

/-! ## The whole text -/

/-- At most `n` items; every item takes a character, so the length of the text is enough. -/
def items : (n line : Nat) → List Char → Scan
  | 0, line, _ => ⟨[], .ok line⟩
  | n + 1, line, cs =>
    match skipBlanks line false cs with
    | (line, []) => ⟨[], .ok line⟩
    | (line, c :: cs) =>
      match item c cs with
      | .error cause => ⟨[], .error ⟨line, cause⟩⟩
      | .ok (token, rest) =>
        let line := line + token.lineBreaks
        let scan := items n line rest
        ⟨⟨token, line⟩ :: scan.tokens, scan.stop⟩

end Scan

def scan (source : String) : Scan :=
  Scan.items (source.toList.length + 1) 1 source.toList

end TinyScript
