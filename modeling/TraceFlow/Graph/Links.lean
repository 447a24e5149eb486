/-
TraceFlow.Graph.Links — edges of a graph.

Every edge is kept at both of its ends: the source holds kind and count,
the target the count. `link`, `unlinkOnce` and `unlink` are the only
operations that touch edges, and each changes both ends.
-/
import TraceFlow.Graph.Basic

namespace TraceFlow.Graph

def edge? (g : Graph) (a b : BlockId) : Option Edge := (g.block a).out.get? b

/-- The graph after `count` more traversals from `a` to `b`; a kind that is given becomes the
edge's kind. -/
def link (g : Graph) (a b : BlockId) (kind : Option LinkKind) (count : Nat) : Graph :=
  if count = 0 then g
  else
    let left := g.modify a fun s =>
      { s with out := s.out.insert b (.raised (s.out.get? b) kind count) }
    left.modify b fun t =>
      { t with into := t.into.insert a (saturate ((t.into.get? a).getD 0 + count)) }

/-- The graph with one traversal from `a` to `b` taken back; an edge whose last one goes, goes. -/
def unlinkOnce (g : Graph) (a b : BlockId) : Graph :=
  match g.edge? a b with
  | none => g
  | some edge =>
    let left := g.modify a fun s =>
      { s with out :=
          if edge.count ≤ 1 then s.out.erase b
          else s.out.insert b { edge with count := edge.count - 1 } }
    left.modify b fun t =>
      match t.into.get? a with
      | none => t
      | some count =>
        { t with into := if count ≤ 1 then t.into.erase a else t.into.insert a (count - 1) }

def unlink (g : Graph) (a b : BlockId) : Graph :=
  match g.edge? a b with
  | none => g
  | some _ =>
    let left := g.modify a fun s => { s with out := s.out.erase b }
    left.modify b fun t => { t with into := t.into.erase a }

/-- The edges out of a block, by target. -/
def linksFrom (g : Graph) (id : BlockId) : List Link :=
  (g.block id).out.entries.map fun e => ⟨id, e.1, e.2.kind, e.2.count⟩

/-- The edges into a block, by source. -/
def linksInto (g : Graph) (id : BlockId) : List Link :=
  (g.block id).into.keys.filterMap fun source =>
    (g.edge? source id).map fun e => ⟨source, id, e.kind, e.count⟩

/-- The edges out of every block, by source and target. -/
def links (g : Graph) : List Link := g.ids.flatMap g.linksFrom

@[simp] theorem size_link (g : Graph) (a b : BlockId) (kind : Option LinkKind) (count : Nat) :
    (g.link a b kind count).size = g.size := by
  unfold link
  split <;> simp

@[simp] theorem size_unlink (g : Graph) (a b : BlockId) : (g.unlink a b).size = g.size := by
  unfold unlink
  split <;> simp

end TraceFlow.Graph
