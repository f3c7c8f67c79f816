import TinyScript.Token

/-!
# Errors of a source text

The first thing in a source text that cannot be read, with its line and what is wrong there.
-/

namespace TinyScript

inductive Expected where
  | statement
  | expression
  | token (t : Token)
deriving DecidableEq

def Expected.shown : Expected → String
  | .statement => "a statement"
  | .expression => "an expression"
  | .token t => t.shown

namespace SourceError

inductive Cause where
  /-- no lexical item starts with, or goes on with, this character -/
  | unexpectedChar (c : Char)
  | unterminatedText
  | numberOutOfRange (digits : String)
  /-- the grammar allows no such token here; `none` is the end of the input -/
  | unexpectedToken (expected : Expected) (found : Option Token)
deriving DecidableEq

def Cause.message : Cause → String
  | .unexpectedChar c => "unexpected character `" ++ String.singleton c ++ "`"
  | .unterminatedText => "unterminated string literal"
  | .numberOutOfRange digits => "number `" ++ digits ++ "` is out of range"
  | .unexpectedToken expected found =>
    "expected " ++ expected.shown ++ ", found " ++ (found.elim Token.endShown Token.shown)

end SourceError

structure SourceError where
  line : Nat
  cause : SourceError.Cause
deriving DecidableEq

def SourceError.message (e : SourceError) : String :=
  "line " ++ Decimal.integer e.line ++ ": " ++ e.cause.message

end TinyScript
