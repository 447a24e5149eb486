/-
TraceFlow.Text.Quoted — a text between double quotes, on one line.

Quote and backslash stand behind a backslash; tab, carriage return, line
feed and NUL have letters of their own; every other invisible character
is written as its code point in hex. All else stands as it is.
-/
import TraceFlow.Text.Hex
import TraceFlow.Text.Invisible

namespace TraceFlow.Text

/-- How one character is written between the quotes. -/
def quotedChar (c : Char) : String :=
  match c with
  | '\x00' => "\\0"
  | '\t' => "\\t"
  | '\r' => "\\r"
  | '\n' => "\\n"
  | '"' => "\\\""
  | '\\' => "\\\\"
  | c => if isInvisible c then "\\u\x7b" ++ Hex.lower c.toNat ++ "\x7d" else c.toString

def quoted (text : List Char) : String :=
  "\"" ++ String.join (text.map quotedChar) ++ "\""

end TraceFlow.Text
