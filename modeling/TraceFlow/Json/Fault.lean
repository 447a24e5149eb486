/-
TraceFlow.Json.Fault — what can be wrong with a document, and where.

A fault is either one of the form, or a value that does not fit what is
expected in its place. Its message ends with the place: line and bytes
into the line, a byte that was only looked at included.
-/

namespace TraceFlow.Json

inductive Fault where
  | endInArray
  | endInObject
  | endInString
  | endInValue
  | noColon
  /-- Neither a comma nor the end follows an item. -/
  | noItemEnd
  | noMemberEnd
  /-- A word begins like a known one. -/
  | badWord
  /-- No value starts here. -/
  | noValue
  /-- A number in quotes does not end with its digits. -/
  | noClosingQuote
  | badEscape
  | badNumber
  /-- A number lies beyond all binary64 numbers. -/
  | hugeNumber
  | badText
  | controlCharacter
  | noKey
  /-- A member does not begin with a number in quotes. -/
  | noNumericKey
  /-- An escape holds half of a pair. -/
  | loneHalf
  | noSecondHalf
  | trailingComma
  | trailingText
  | wrongType (found expected : String)
  | wrongValue (found expected : String)
  | wrongLength (length : Nat) (expected : String)
  | unknownChoice (name : String) (choices : List String)
  | missingField (name : String)
  | repeatedField (name : String)
deriving DecidableEq, Repr

def ticked (name : String) : String := "`" ++ name ++ "`"

def oneOf : List String → String
  | [a] => ticked a
  | [a, b] => ticked a ++ " or " ++ ticked b
  | names => "one of " ++ ", ".intercalate (names.map ticked)

def Fault.text : Fault → String
  | .endInArray => "EOF while parsing a list"
  | .endInObject => "EOF while parsing an object"
  | .endInString => "EOF while parsing a string"
  | .endInValue => "EOF while parsing a value"
  | .noColon => "expected `:`"
  | .noItemEnd => "expected `,` or `]`"
  | .noMemberEnd => "expected `,` or `\x7d`"
  | .badWord => "expected ident"
  | .noValue => "expected value"
  | .noClosingQuote => "expected `\"`"
  | .badEscape => "invalid escape"
  | .badNumber => "invalid number"
  | .hugeNumber => "number out of range"
  | .badText => "invalid unicode code point"
  | .controlCharacter => "control character (\\u0000-\\u001F) found while parsing a string"
  | .noKey => "key must be a string"
  | .noNumericKey => "invalid value: expected key to be a number in quotes"
  | .loneHalf => "lone leading surrogate in hex escape"
  | .noSecondHalf => "unexpected end of hex escape"
  | .trailingComma => "trailing comma"
  | .trailingText => "trailing characters"
  | .wrongType found expected => "invalid type: " ++ found ++ ", expected " ++ expected
  | .wrongValue found expected => "invalid value: " ++ found ++ ", expected " ++ expected
  | .wrongLength length expected =>
    "invalid length " ++ Nat.repr length ++ ", expected " ++ expected
  | .unknownChoice name choices =>
    "unknown variant " ++ ticked name ++ ", expected " ++ oneOf choices
  | .missingField name => "missing field " ++ ticked name
  | .repeatedField name => "duplicate field " ++ ticked name

structure Place where
  /-- The line, from one. -/
  line : Nat
  /-- Bytes into the line. -/
  column : Nat
deriving DecidableEq, Repr

structure Misfit where
  fault : Fault
  /-- Where; a value that does not fit gets its place from whoever reads it. -/
  place : Option Place
deriving DecidableEq, Repr

def Misfit.message (m : Misfit) : String :=
  match m.place with
  | some p => m.fault.text ++ " at line " ++ Nat.repr p.line ++ " column " ++ Nat.repr p.column
  | none => m.fault.text

end TraceFlow.Json
