/-
TraceFlow.Graph.CallSites — cutting calls out of a raw graph.

A call leads from one function into another. `splitCallSites` lets every
call end in a marker of its own instead, so that what a block leads to
stays inside its function, and gives the blocks that begin a function.
-/
import TraceFlow.Graph.Links

namespace TraceFlow.Graph

/-- The marker for a call of `entry`, with the name of its target. -/
def callMarker (g : Graph) (entry : BlockId) : Block :=
  let target := g.block entry
  { Block.marker target.pc ("call to " ++ g.name entry) false with
    kind := target.kind
    ordinal := target.ordinal }

/-- The graph with one call of `entry` led to a marker. -/
def divertCall (entry : BlockId) (g : Graph) (call : Link) : Graph :=
  let block := g.callMarker entry
  let (g', marker) := (g.unlink call.source entry).alloc block
  g'.link call.source marker (some .callTaken) call.count

def callsOf (g : Graph) (entry : BlockId) : List Link :=
  (g.linksInto entry).filter (·.kind = .callTaken)

/-- The graph with all calls of `entry` led to markers. -/
def divertCalls (g : Graph) (entry : BlockId) : Graph :=
  (g.callsOf entry).foldl (divertCall entry) g

/-- The indexed blocks that begin a function, by address. -/
def functionEntries (g : Graph) : List BlockId :=
  g.indexed.filter fun id => (g.block id).kind.isFunctionEntry

/-- The graph with all calls led to markers, and the blocks that begin a function: `start` first,
then those that are called or handle an interrupt, by address. -/
def splitCallSites (g : Graph) (start : BlockId) : Graph × List BlockId :=
  (g.functionEntries.foldl divertCalls g, start :: g.functionEntries)

end TraceFlow.Graph
