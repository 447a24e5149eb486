/-
TraceFlow.Comparison.Pairing — two graphs walked in lockstep.

A pairing is a place in the walk: a block on each side, or a block on one
side whose place the other side does not have. From two blocks the walk
goes on to their successors, paired by name; a successor without a
partner goes on alone, and so do all blocks behind it.
-/
import TraceFlow.Comparison.Difference
import TraceFlow.Graph.Closure

namespace TraceFlow

/-- The same instructions, whatever their labels, and the same synthetic content. -/
def Block.SameContent (a b : Block) : Prop :=
  a.instructions.map (·.unlabelled) = b.instructions.map (·.unlabelled) ∧ a.synthetic = b.synthetic

instance (a b : Block) : Decidable (a.SameContent b) := inferInstanceAs (Decidable (_ ∧ _))

/-- The successors of a block by name; of two with one name the later wins. -/
def Graph.successorsByName (g : Graph) (id : BlockId) : SortedMap String BlockId :=
  .ofList ((g.successors id).map fun s => (g.name s, s))

/-- A place in the walk over two graphs. -/
inductive Pairing where
  | both (l r : BlockId)
  /-- A block on the left that has no partner. -/
  | left (l : BlockId)
  /-- A block on the right that has no partner. -/
  | right (r : BlockId)
deriving DecidableEq, Repr, Hashable

namespace Pairing

/-- Where a successor on the left leads: to its namesake on the right as well, if there is one. -/
def ofLeft (rights : SortedMap String BlockId) (e : String × BlockId) : Pairing :=
  match rights.get? e.1 with
  | some r => .both e.2 r
  | none => .left e.2

/-- The successors of two blocks, paired by name: those on the left by ascending name, then those
that only the right side has. -/
def paired (lefts rights : SortedMap String BlockId) : List Pairing :=
  lefts.entries.map (ofLeft rights) ++
    (rights.entries.filter fun e => (lefts.get? e.1).isNone).map fun e => .right e.2

/-- The places that follow, in the order of the walk: what is named last comes first. A pair with an
unknown block leads nowhere. -/
def next (g h : Graph) : Pairing → List Pairing
  | .both l r =>
    if l < g.size ∧ r < h.size then
      (paired (g.successorsByName l) (h.successorsByName r)).reverse
    else []
  | .left l => ((g.successors l).map .left).reverse
  | .right r => ((h.successors r).map .right).reverse

/-- The places that hold only known blocks. -/
def known (g h : Graph) : List Pairing :=
  (g.ids.flatMap fun l => h.ids.map fun r => .both l r) ++ g.ids.map .left ++ h.ids.map .right

/-- Only finitely many places lead on. -/
theorem finite_next (g h : Graph) : Traversal.Finite (next g h) := by
  refine ⟨known g h, fun p hp => ?_⟩
  cases p with
  | both l r =>
    simp only [known, Graph.ids, List.mem_append, List.mem_flatMap, List.mem_map, List.mem_range,
      not_or, not_exists, not_and] at hp
    rw [next, if_neg]
    exact fun h => hp.1.1 l h.1 r h.2 rfl
  | left l =>
    have hl : g.size ≤ l := by simpa [known, Graph.ids] using hp
    simp [next, Graph.successors, Graph.block_of_size_le hl, Block.missing, Block.successors]
  | right r =>
    have hr : h.size ≤ r := by simpa [known, Graph.ids] using hp
    simp [next, Graph.successors, Graph.block_of_size_le hr, Block.missing, Block.successors]

/-- The places of the walk from two entries, in order. -/
def walk (g h : Graph) (l r : BlockId) : List Pairing :=
  Traversal.visit (next g h) (finite_next g h) (.both l r)

/-- What differs at a place of the walk through `function`. -/
def differences (function : String) (g h : Graph) : Pairing → List Difference
  | .both l r =>
    if (g.block l).SameContent (h.block r) then []
    else [.mismatch function (g.name l) (h.name r) (g.listing l) (h.listing r)]
  | .left l => [.oneSided function (g.name l) .left (g.listing l)]
  | .right r => [.oneSided function (h.name r) .right (h.listing r)]

end Pairing

end TraceFlow
