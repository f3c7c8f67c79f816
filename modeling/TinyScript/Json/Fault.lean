import TinyScript.Decimal.Integer
import TinyScript.Decimal.Layout
import TinyScript.Text.Quoted

/-!
# Faults of a JSON document

Why a text is no document, or why a document is not of the shape that was asked for.
-/

namespace TinyScript.Json

inductive Found where
  | null
  | boolean (b : Bool)
  | integer (n : Int)
  | float (x : Float)
  | text (s : String)
  | sequence
  | map
  /-- the bare name of a variant that has content -/
  | unitVariant
deriving DecidableEq

def Found.shown : Found → String
  | .null => "null"
  | .boolean true => "boolean `true`"
  | .boolean false => "boolean `false`"
  | .integer n => "integer `" ++ Decimal.integer n ++ "`"
  | .float x => "floating point `" ++ Decimal.Layout.json.text x ++ "`"
  | .text s => "string " ++ Text.quoted s
  | .sequence => "sequence"
  | .map => "map"
  | .unitVariant => "unit variant"

inductive Fault where
  /-- the document ends inside something -/
  | endOfValue | endOfList | endOfObject | endOfText
  | expectedColon | expectedListEnd | expectedObjectEnd | expectedWord | expectedValue
  | invalidEscape | invalidNumber | numberOutOfRange
  | loneSurrogate | endOfSurrogate
  | controlCharacter
  | keyNotText
  | trailingComma | trailingCharacters
  | tooDeep
  | invalidType (found : Found) (expected : String)
  | invalidValue (n : Int) (expected : String)
  | invalidLength (length : Nat) (expected : String)
  | unknownVariant (name : String) (known : List String)
  | missingField (name : String)
  | duplicateField (name : String)
  /-- a text that does not mean what was asked for -/
  | rejected (reason : String)
deriving DecidableEq

def Fault.message : Fault → String
  | .endOfValue => "EOF while parsing a value"
  | .endOfList => "EOF while parsing a list"
  | .endOfObject => "EOF while parsing an object"
  | .endOfText => "EOF while parsing a string"
  | .expectedColon => "expected `:`"
  | .expectedListEnd => "expected `,` or `]`"
  | .expectedObjectEnd => "expected `,` or `\x7d`"
  | .expectedWord => "expected ident"
  | .expectedValue => "expected value"
  | .invalidEscape => "invalid escape"
  | .invalidNumber => "invalid number"
  | .numberOutOfRange => "number out of range"
  | .loneSurrogate => "lone leading surrogate in hex escape"
  | .endOfSurrogate => "unexpected end of hex escape"
  | .controlCharacter => "control character (\\u0000-\\u001F) found while parsing a string"
  | .keyNotText => "key must be a string"
  | .trailingComma => "trailing comma"
  | .trailingCharacters => "trailing characters"
  | .tooDeep => "recursion limit exceeded"
  | .invalidType found expected => "invalid type: " ++ found.shown ++ ", expected " ++ expected
  | .invalidValue n expected =>
    "invalid value: integer `" ++ Decimal.integer n ++ "`, expected " ++ expected
  | .invalidLength length expected =>
    "invalid length " ++ Decimal.integer length ++ ", expected " ++ expected
  | .unknownVariant name known =>
    "unknown variant `" ++ name ++ "`, expected one of " ++
      ", ".intercalate (known.map fun k => "`" ++ k ++ "`")
  | .missingField name => "missing field `" ++ name ++ "`"
  | .duplicateField name => "duplicate field `" ++ name ++ "`"
  | .rejected reason => reason

end TinyScript.Json
