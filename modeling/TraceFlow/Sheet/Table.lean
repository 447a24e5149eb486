/-
TraceFlow.Sheet.Table — the edges of a function as a table.

A row is a line of cells with commas between them. A cell that holds a
comma, a quote or a line end stands between quotes, and quotes inside it
are written twice.
-/
import TraceFlow.FunctionMap

namespace TraceFlow.Sheet.Table

/-- Whether a character has to stand between quotes. -/
def needsQuotes (c : Char) : Bool := c = ',' || c = '"' || c = '\r' || c = '\n'

def cell (text : String) : String :=
  if text.toList.any needsQuotes then
    let inside := text.toList.flatMap fun c => if c = '"' then ['"', '"'] else [c]
    "\"" ++ String.ofList inside ++ "\""
  else text

def row (cells : List String) : String := ",".intercalate (cells.map cell) ++ "\n"

def columns : List String := ["function", "from", "to", "kind", "count", "from_pc", "to_pc"]

/-- The cells of an edge. -/
def cells (g : Graph) (function : String) (l : Link) : List String :=
  [function, g.name l.source, g.name l.target, l.kind.name, Nat.repr l.count,
    "0x" ++ Hex.lower (g.block l.source).pc, "0x" ++ Hex.lower (g.block l.target).pc]

/-- The rows of a function: one for each edge, block by block. -/
def rows (m : FunctionMap) (function : String) (entry : BlockId) : List (List String) :=
  (m.walk entry).flatMap fun id => (m.graph.linksFrom id).map (cells m.graph function)

def render (m : FunctionMap) (function : String) (entry : BlockId) : String :=
  String.join ((columns :: rows m function entry).map row)

end TraceFlow.Sheet.Table
