/-
TraceFlow.Format — the forms that a function can be written in.
-/

namespace TraceFlow

inductive Format where
  | text
  /-- A drawing in the dot language. -/
  | dot
  /-- A JSON document of blocks and edges. -/
  | json
  /-- A table of edges, its cells separated by commas. -/
  | csv
deriving DecidableEq, Repr

namespace Format

/-- All forms, in the order in which they are written. -/
def all : List Format := [.text, .dot, .json, .csv]

def name : Format → String
  | .text => "text"
  | .dot => "dot"
  | .json => "json"
  | .csv => "csv"

def extension : Format → String
  | .text => "txt"
  | .dot => "dot"
  | .json => "json"
  | .csv => "csv"

def otherName : Format → String
  | .text => "txt"
  | .dot => "gv"
  | .json => "json"
  | .csv => "csv"

/-- The form that a word names, in capitals or not. Only ASCII capitals count: no other character
becomes a letter of these words in lower case. -/
def ofName? (word : String) : Option Format :=
  let lower := word.toList.map Char.toLower
  all.find? fun f => lower = f.name.toList || lower = f.otherName.toList

def unknownText (word : String) : String := "Unknown output format: " ++ word

theorem ofName?_name (f : Format) : ofName? f.name = some f := by
  cases f <;> decide

end Format

end TraceFlow
