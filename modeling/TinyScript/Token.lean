import TinyScript.Decimal.Integer
import TinyScript.Decimal.Layout
import TinyScript.Operator
import TinyScript.Text.Quoted

/-!
# Tokens

The lexical items of a program.  The end of the input is no token: a list of tokens ends where the
input ends.
-/

namespace TinyScript

inductive Keyword where
  | print
  | ifTrue
  | otherwise
  | whileTrue
  | round
deriving DecidableEq, Repr

namespace Keyword

def spelling : Keyword → String
  | .print => "print"
  | .ifTrue => "if"
  | .otherwise => "else"
  | .whileTrue => "while"
  | .round => "round"

def all : List Keyword := [.print, .ifTrue, .otherwise, .whileTrue, .round]

def ofSpelling? (word : String) : Option Keyword := all.find? fun k => k.spelling == word

theorem ofSpelling?_spelling (k : Keyword) : ofSpelling? k.spelling = some k := by
  cases k <;> decide

end Keyword

/-- the marks that are no binary operators -/
inductive Mark where
  | leftParen | rightParen
  | leftBrace | rightBrace
  | semicolon
  | assign
  | bang
deriving DecidableEq, Repr

def Mark.char : Mark → Char
  | .leftParen => '('
  | .rightParen => ')'
  | .leftBrace => '\x7b'
  | .rightBrace => '\x7d'
  | .semicolon => ';'
  | .assign => '='
  | .bang => '!'

inductive Token where
  | ident (name : String)
  | int (n : Int32)
  | float (x : Float)
  | text (s : String)
  | keyword (k : Keyword)
  | mark (m : Mark)
  | op (o : Operator)
deriving DecidableEq

namespace Token

def shown : Token → String
  | .ident name => "identifier `" ++ name ++ "`"
  | .int n => "number `" ++ Decimal.integer n.toInt ++ "`"
  | .float x => "number `" ++ Decimal.Layout.plain.text x ++ "`"
  | .text s => "string " ++ Text.quoted s
  | .keyword k => "`" ++ k.spelling ++ "`"
  | .mark m => "`" ++ String.singleton m.char ++ "`"
  | .op o => "`" ++ o.symbol ++ "`"

/-- how many lines end inside the token: only a text can hold newlines -/
def lineBreaks : Token → Nat
  | .text s => s.toList.count '\n'
  | _ => 0

/-- the end of the input as messages show it -/
def endShown : String := "end of input"

end Token

/-- a token and the line on which it ends -/
structure Located where
  token : Token
  line : Nat
deriving DecidableEq

end TinyScript
