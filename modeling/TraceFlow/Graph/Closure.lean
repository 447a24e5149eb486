/-
TraceFlow.Graph.Closure — the blocks that a block leads to.

`closure` visits them depth first, each once, successors in ascending
order. `Reaches` is the relation that the closure lists.
-/
import TraceFlow.Graph.Links
import TraceFlow.Traversal

namespace TraceFlow.Graph

/-- The blocks that edges lead to, in ascending order. -/
def successors (g : Graph) (id : BlockId) : List BlockId := (g.block id).successors

/-- Only blocks of the graph have successors. -/
theorem finite_successors (g : Graph) : Traversal.Finite g.successors := by
  refine ⟨g.ids, fun id h => ?_⟩
  have hs : g.size ≤ id := by simpa [ids] using h
  rw [successors, block_of_size_le hs]
  simp [Block.successors, Block.missing]

/-- The blocks that `entry` leads to, itself first, depth first. -/
def closure (g : Graph) (entry : BlockId) : List BlockId :=
  Traversal.visit g.successors g.finite_successors entry

/-- The edges out of the blocks that `entry` leads to, block by block. -/
def closureLinks (g : Graph) (entry : BlockId) : List Link :=
  (g.closure entry).flatMap g.linksFrom

/-- A path of edges leads from one block to another. -/
inductive Reaches (g : Graph) : BlockId → BlockId → Prop where
  | here (a : BlockId) : Reaches g a a
  | step {a b c : BlockId} (edge : b ∈ g.successors a) (path : Reaches g b c) : Reaches g a c

end TraceFlow.Graph
