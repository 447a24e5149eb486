/-
TraceFlow.Sheet.Dot — a function as a drawing in the dot language.

A drawing declares a node for every block, labelled with the block's name
and its instructions line by line, and then an edge for every edge. The
label stands between double quotes, so its lines are escaped: `escape`
leaves no quote that would close the label. A backslash and an l end a
line of a label and set it flush left.
-/
import TraceFlow.FunctionMap
import TraceFlow.Text.Lines

namespace TraceFlow.Sheet.Dot

/-- How one character is written between double quotes: quote and backslash behind a backslash, a
carriage return not at all. -/
def escapeChar (c : Char) : List Char :=
  if c = '\\' then ['\\', '\\']
  else if c = '"' then ['\\', '"']
  else if c = '\r' then []
  else [c]

/-- A text as it is written between double quotes. -/
def escape (text : List Char) : List Char := text.flatMap escapeChar

/-- A node of a drawing: its number and the lines of its label as they are written. -/
structure Node where
  id : BlockId
  /-- The lines of the label. -/
  lines : List (List Char)
deriving DecidableEq, Repr

/-- The end of a line of a label. -/
def lineEnd : List Char := ['\\', 'l']

/-- The label of a node, without its quotes. -/
def Node.label (n : Node) : List Char := n.lines.flatMap (· ++ lineEnd)

def Node.render (n : Node) : String :=
  "    " ++ blockTag n.id ++ " [label=\"" ++ String.ofList n.label ++ "\"];\n"

def renderEdge (l : Link) : String :=
  "    " ++ blockTag l.source ++ " -> " ++ blockTag l.target ++ " [color=" ++ l.kind.color ++
    ", label=\"" ++ l.kind.name ++ " x" ++ Nat.repr l.count ++ "\", tailport=s, headport=n];\n"

/-- A drawing: its name, its nodes and its edges. -/
structure Drawing where
  name : String
  nodes : List Node
  edges : List Link
deriving DecidableEq, Repr

def head (name : String) : String :=
  "digraph \"" ++ String.ofList (escape name.toList) ++ "\" \x7b\n" ++
    "    splines=true;\n" ++
    "    node [shape=box, fontname=\"Courier\", fontsize=10];\n" ++
    "    edge [fontname=\"Courier\", fontsize=9];\n\n"

def Drawing.render (d : Drawing) : String :=
  head d.name ++ String.join (d.nodes.map Node.render) ++ "\n" ++
    String.join (d.edges.map renderEdge) ++ "\x7d\n"

/-- The node of a block: its name, then the lines of its listing. -/
def node (g : Graph) (id : BlockId) : Node where
  id := id
  lines := (g.name id).toList :: (Text.lines (g.listing id).toList).map escape

def drawing (m : FunctionMap) (function : String) (entry : BlockId) : Drawing where
  name := function
  nodes := (m.walk entry).map (node m.graph)
  edges := (m.walk entry).flatMap m.graph.linksFrom

def render (m : FunctionMap) (function : String) (entry : BlockId) : String :=
  (drawing m function entry).render

end TraceFlow.Sheet.Dot
