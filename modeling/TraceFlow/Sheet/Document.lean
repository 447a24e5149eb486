/-
TraceFlow.Sheet.Document — a function as a JSON document.

The document names the function, its entry and the functions that it lies
inside, and lists its blocks with their instructions and successors.
-/
import TraceFlow.FunctionMap
import TraceFlow.Json.Value

namespace TraceFlow.Sheet.Document

/-- The document of an instruction; it has no label member when there is no label. -/
def instruction (g : Graph) (i : Instruction) : Json :=
  .object ([("pc", .string (Hex.padded g.digits i.pc)),
    ("opcode", .string (Hex.ofBytes i.opcode)),
    ("operand", .string (Hex.ofBytes i.operand))] ++
    (i.label.map fun label => ("label", .string label)).toList)

/-- The document of an edge, as its source lists it. -/
def successor (g : Graph) (l : Link) : Json :=
  .object [("to", .string (g.name l.target)), ("kind", .string l.kind.name),
    ("count", .number l.count)]

/-- The instructions that a block shows; a synthetic one shows none. -/
def shownInstructions (b : Block) : List Instruction :=
  if b.isSynthetic then [] else b.instructions.toList

def block (g : Graph) (id : BlockId) : Json :=
  let b := g.block id
  .object ([("name", .string (g.name id)), ("kind", .string b.kind.word)] ++
    (b.synthetic.map fun s => ("special", .string s.label)).toList ++
    [("instructions", .ofList (instruction g) (shownInstructions b)),
      ("successors", .ofList (successor g) (g.linksFrom id))])

def function (m : FunctionMap) (function : String) (entry : BlockId) : Json :=
  .object
    [("name", .string function),
      ("entry", .string (m.graph.name entry)),
      ("within", .ofList .string
        ((m.graph.block entry).within.names.filter fun w => w ≠ function)),
      ("blocks", .ofList (block m.graph) (m.walk entry))]

def render (m : FunctionMap) (name : String) (entry : BlockId) : String :=
  (function m name entry).pretty

end TraceFlow.Sheet.Document
