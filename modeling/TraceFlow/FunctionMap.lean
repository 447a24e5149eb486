/-
TraceFlow.FunctionMap — the functions of a trace.

`Recording.functionMap` cuts calls out of a raw graph, joins straight
lines, and divides the rest into functions. Whatever no function claims
is reported.
-/
import TraceFlow.Graph.CallSites
import TraceFlow.Graph.Merging
import TraceFlow.Graph.Partition
import TraceFlow.Recording
import TraceFlow.Mnemonic

namespace TraceFlow

structure FunctionMap where
  graph : Graph
  functions : SortedMap String BlockId
  /-- The entries of functions that lie inside others, by name. -/
  innerFunctions : SortedMap String BlockId
  /-- What could not be explained. -/
  diagnostics : List Diagnostic
  tally : Tally
deriving DecidableEq

namespace FunctionMap

/-- The entry of a function, inner or not. -/
def entry? (m : FunctionMap) (name : String) : Option BlockId :=
  (m.functions.get? name).or (m.innerFunctions.get? name)

/-- The blocks of a function, depth first. -/
def walk (m : FunctionMap) (entry : BlockId) : List BlockId := m.graph.closure entry

/-- The edges of a function, block by block. -/
def links (m : FunctionMap) (entry : BlockId) : List Link := m.graph.closureLinks entry

/-- The number of edges that are returns without a call. -/
def returnMissCount (m : FunctionMap) : Nat :=
  (m.graph.links.filter (·.kind = .returnMiss)).length

/-- Whether every block belongs to a function. -/
def isClean (m : FunctionMap) : Bool := !m.diagnostics.any (·.isUnclaimed)

end FunctionMap

/-- A raw graph on its way to its functions, with what each stage found. -/
structure Extraction where
  /-- The raw graph with its calls led to markers. -/
  split : Graph
  /-- The blocks that begin a function. -/
  entries : List BlockId
  /-- The graph with straight lines joined, and the number of joins. -/
  merged : Graph.Merged
  /-- The graph divided into functions. -/
  graph : Graph
  /-- What became of each entry. -/
  placed : List Graph.Placement

namespace Extraction

/-- Takes a raw graph through all stages. -/
def of (p : Profile) (raw : Graph) (start : BlockId) : Extraction :=
  let (split, entries) := raw.splitCallSites start
  let merged := split.mergeStraightLines p
  let (graph, placed) := merged.graph.partition entries
  { split := split, entries := entries, merged := merged, graph := graph, placed := placed }

def notes (e : Extraction) : List Note :=
  let inner := (Graph.innerOnes e.placed).size
  [e.merged.note] ++ e.placed.flatMap (·.notes) ++ e.graph.unclaimedNotes ++
    [⟨.info, "Extracted " ++ Nat.repr (Graph.topLevel e.placed).size ++ " functions (" ++
      Nat.repr inner ++ " inner) from " ++ Nat.repr e.graph.size ++ " blocks"⟩]

def functionMap (e : Extraction) (diagnostics : List Diagnostic) (tally : Tally) :
    FunctionMap where
  graph := e.graph
  functions := Graph.topLevel e.placed
  innerFunctions := Graph.innerOnes e.placed
  diagnostics := diagnostics ++ e.graph.unclaimed.map .unclaimedBlock
  tally := { tally with mergedBlocks := e.merged.count }

end Extraction

namespace Recording

def extraction (p : Profile) (r : Recording) : Extraction := .of p r.graph r.start

def functionMap (p : Profile) (r : Recording) : FunctionMap :=
  (r.extraction p).functionMap r.diagnostics r.tally

end Recording

/-! ## From a trace to its functions -/

/-- How traces of a CPU are followed: new blocks are labelled with their mnemonics. -/
def Cpu.setup (cpu : Cpu) : Setup where
  profile := cpu.profile
  label? := some fun inst => Mnemonic.label inst.opcode inst.operand

namespace FunctionMap

/-- The functions of a trace. -/
def ofTrace (s : Setup) (bytes : List UInt8) : FunctionMap :=
  (Recording.ofTrace s bytes).functionMap s.profile

/-- The functions of a trace, with what is noted while they are found. -/
def noting (s : Setup) (bytes : List UInt8) : FunctionMap × List Note :=
  let (r, notes) := Recording.noting s bytes
  let e := r.extraction s.profile
  (e.functionMap r.diagnostics r.tally, notes ++ e.notes)

/-- Notes change nothing. -/
@[simp] theorem fst_noting (s : Setup) (bytes : List UInt8) :
    (noting s bytes).1 = ofTrace s bytes := by
  simp [noting, ofTrace, Recording.functionMap]

end FunctionMap

end TraceFlow
