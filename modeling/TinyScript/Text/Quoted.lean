import TinyScript.Text.Printable

/-!
# Quoted texts

`quoted s` shows a text in a message: between double quotes, with the quote, the backslash and
four control characters written as short escapes, and every other character that is not printable
written by its number.
-/

namespace TinyScript.Text

/-- the lower-case hexadecimal digits of a number, without leading zeros -/
def hex (n : Nat) : List Char := Nat.toDigits 16 n

def shortEscape (c : Char) : Option Char :=
  match c with
  | '\x00' => some '0'
  | '\t' => some 't'
  | '\r' => some 'r'
  | '\n' => some 'n'
  | '"' => some '"'
  | '\\' => some '\\'
  | _ => none

def escaped (c : Char) : List Char :=
  match shortEscape c with
  | some letter => ['\\', letter]
  | none => if isPrintable c then [c] else ['\\', 'u', '\x7b'] ++ hex c.toNat ++ ['\x7d']

def quotedChars (cs : List Char) : List Char := cs.flatMap escaped

def quoted (s : String) : String :=
  String.ofList ('"' :: quotedChars s.toList ++ ['"'])

theorem quotedChars_cons (c : Char) (cs : List Char) :
    quotedChars (c :: cs) = escaped c ++ quotedChars cs := rfl

end TinyScript.Text
