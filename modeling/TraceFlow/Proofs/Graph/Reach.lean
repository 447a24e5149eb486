/-
TraceFlow.Proofs.Graph.Reach — the closure of a block is what the block
reaches.

Three descriptions of the same blocks are tied together. `Reaches` are
paths of edges, the form in which induction on a path is done.
`Traversal.Path` are paths of a successor function, the form of the theory
of traversals. `closure` is the list that is computed, depth first.

`mem_closure_iff` says that the list holds exactly what is reached, and
`mem_successors_iff` turns a step of a path into look-up of an edge, so that
later modules speak of `edge?` only. All three depend on the edges alone,
and that is said by equations, not by equivalences, so that they can be
rewritten in a graph with the same edges (`SameEdges.successors`,
`SameEdges.closure`).
-/
import TraceFlow.Graph.Closure
import TraceFlow.Proofs.Graph.Edges
import TraceFlow.Proofs.Traversal

namespace TraceFlow.Graph

variable {g g' : Graph} {a b c : BlockId}

/-- A successor is the target of an edge. -/
theorem mem_successors_iff : b ∈ g.successors a ↔ (g.edge? a b).isSome :=
  SortedMap.mem_keys_iff

/-- Paths compose. -/
theorem Reaches.trans (hab : g.Reaches a b) (hbc : g.Reaches b c) : g.Reaches a c := by
  induction hab with
  | here => exact hbc
  | step edge _ ih => exact .step edge (ih hbc)

/-- Paths of edges are paths along successors. -/
theorem reaches_iff_path : g.Reaches a b ↔ Traversal.Path g.successors a b := by
  constructor
  · intro h
    induction h with
    | here a => exact .here a
    | step edge _ ih => exact .step edge ih
  · intro h
    induction h with
    | here a => exact .here a
    | step edge _ ih => exact .step edge ih

/-- The closure of a block lists the blocks that it reaches. -/
theorem mem_closure_iff : b ∈ g.closure a ↔ g.Reaches a b := by
  rw [reaches_iff_path]
  exact Traversal.mem_visit_iff a b

theorem SameEdges.successors (h : SameEdges g g') : g'.successors = g.successors := by
  funext id
  rw [Graph.successors, Graph.successors, Block.successors, Block.successors, h.out]

/-- The same edges, listed in the same order. -/
theorem SameEdges.closure (h : SameEdges g g') : g'.closure = g.closure := by
  funext id
  simp only [Graph.closure, h.successors]

theorem SameEdges.reaches (h : SameEdges g g') : g'.Reaches a b ↔ g.Reaches a b := by
  rw [← mem_closure_iff, ← mem_closure_iff, h.closure]

end TraceFlow.Graph
