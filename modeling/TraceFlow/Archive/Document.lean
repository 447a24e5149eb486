/-
TraceFlow.Archive.Document — function maps as JSON documents.

Every field is a member, in a fixed order. Maps become objects whose keys
ascend; a block number or an address that is a key is written in decimal.
A value that is missing is null, except that an instruction without a
label has no such member.
-/
import TraceFlow.FunctionMap
import TraceFlow.Json.Value

namespace TraceFlow

namespace Archive

/-- The document of a map: one member for each entry. -/
def ofMap {κ α : Type} [Ord κ] [Std.TransOrd κ] (key : κ → String) (value : α → Json)
    (m : SortedMap κ α) : Json :=
  .object (m.entries.map fun e => (key e.1, value e.2))

end Archive

def Instruction.document (i : Instruction) : Json :=
  .object ([("pc", .number i.pc), ("opcode", .ofBytes i.opcode), ("operand", .ofBytes i.operand)] ++
    (i.label.map fun label => ("label", .string label)).toList)

namespace BlockKind

def all : List BlockKind := [.code, .subroutine, .handler]

/-- The kind's name in documents. -/
def tag : BlockKind → String
  | .code => "Loc"
  | .subroutine => "Sub"
  | .handler => "Int"

end BlockKind

namespace LinkKind

def all : List LinkKind := [.normal, .taken, .notTaken, .callTaken, .returnMiss]

def tag : LinkKind → String
  | .normal => "Normal"
  | .taken => "Taken"
  | .notTaken => "NotTaken"
  | .callTaken => "CallTaken"
  | .returnMiss => "RetMiss"

end LinkKind

def Edge.document (e : Edge) : Json :=
  .object [("kind", .string e.kind.tag), ("count", .number e.count)]

def Synthetic.document (s : Synthetic) : Json :=
  .object [("label", .string s.label), ("mergeable", .bool s.mergeable)]

def Block.document (b : Block) : Json :=
  .object
    [("insts", .ofList Instruction.document b.instructions.toList),
      ("kind", .string b.kind.tag),
      ("special", .ofOption Synthetic.document b.synthetic),
      ("ordinal", .ofOption Json.number b.ordinal),
      ("taken_found", .bool b.takenFound),
      ("within", .ofList Json.string b.within.names),
      ("merged_into", .ofOption Json.number b.mergedInto),
      ("tos", Archive.ofMap Nat.repr Edge.document b.out),
      ("froms", Archive.ofMap Nat.repr Json.number b.into)]

def Graph.document (g : Graph) : Json :=
  .object
    [("blocks", .ofList Block.document g.blocks.toList),
      ("index", Archive.ofMap Nat.repr (Json.ofList Json.number) g.index),
      ("digits", .number g.digits)]

def Diagnostic.document : Diagnostic → Json
  | .returnMiss retPc target line =>
    .object [("ReturnMiss", .object
      [("ret_pc", .number retPc), ("target", .number target), ("line", .number line)])]
  | .unclaimedBlock name => .object [("UnclaimedBlock", .object [("name", .string name)])]

def Tally.document (t : Tally) : Json :=
  .object
    [("lines", .number t.lines),
      ("instructions", .number t.instructions),
      ("skipped_lines", .number t.skippedLines),
      ("interrupt_markers", .number t.interruptMarkers),
      ("interrupts", .number t.interrupts),
      ("calls", .number t.calls),
      ("returns", .number t.returns),
      ("ret_misses", .number t.returnMisses),
      ("pending_frames", .number t.pendingFrames),
      ("merged_blocks", .number t.mergedBlocks)]

def FunctionMap.document (m : FunctionMap) : Json :=
  .object
    [("graph", m.graph.document),
      ("functions", Archive.ofMap id Json.number m.functions),
      ("inner_functions", Archive.ofMap id Json.number m.innerFunctions),
      ("diagnostics", .ofList Diagnostic.document m.diagnostics),
      ("stats", m.tally.document)]

end TraceFlow
