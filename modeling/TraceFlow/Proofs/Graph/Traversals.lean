/-
TraceFlow.Proofs.Graph.Traversals — how often control passes through a
graph, told from both ends of its edges.

`traversals` is the count of an edge as its source tells it, `arrivals` as
its target does. In a mirrored graph they agree (`Mirrored.arrivals_eq`),
and everything else is bookkeeping about two maps of one block: the sum of
the values of a map with bounded keys is a sum over all numbers below the
bound (`SortedMap.sum_values`), so what leaves a block and what enters it
are sums of traversals over all blocks, and to exchange the two sums gives
`Mirrored.sum_outCount`.

`EdgesAgree` is the whole statement, by the operations that rely on it: an
edge is held at both ends or at neither, with one positive count; listing
the edges into a block finds a source for every entry that the block holds;
taking a traversal back takes exactly one back at both ends; and as many
traversals leave the blocks of a graph as enter them.

`edges_agree` proves it of every graph that operations make, through
`Built.mirrored`. Its hypothesis on new blocks is needed: a copy of a block
that has edges is refuted in `edges_disagree_copied`, right behind the
theorem.
-/
import Mathlib.Algebra.BigOperators.Intervals
import TraceFlow.Proofs.Graph.Built
import TraceFlow.Proofs.SortedMap

namespace TraceFlow

/-! ## Sums over maps -/

namespace SortedMap

variable {α : Type}

/-- The sum over the values of a map is the sum over all keys below a bound, where a key that holds
nothing counts zero. -/
theorem sum_values (m : SortedMap Nat α) (f : α → Nat) {n : Nat}
    (hn : ∀ k a, m.get? k = some a → k < n) :
    (m.values.map f).foldr (· + ·) 0 = ∑ k ∈ Finset.range n, (m.get? k).elim 0 f := by
  have hkeys : m.keys.toFinset ⊆ Finset.range n := by
    intro k hk
    obtain ⟨a, ha⟩ := Option.isSome_iff_exists.1 (mem_keys_iff.1 (List.mem_toFinset.1 hk))
    exact Finset.mem_range.2 (hn k a ha)
  have houtside : ∀ k ∈ Finset.range n, k ∉ m.keys.toFinset → (m.get? k).elim 0 f = 0 := by
    intro k _ hk
    rw [List.mem_toFinset, mem_keys_iff, Bool.not_eq_true, Option.isSome_eq_false_iff,
      Option.isNone_iff_eq_none] at hk
    rw [hk]
    rfl
  rw [← Finset.sum_subset hkeys houtside, List.sum_toFinset _ m.nodup_keys, ← List.sum_eq_foldr]
  simp only [values, keys, List.map_map]
  refine congrArg List.sum (List.map_congr_left fun e he => ?_)
  rw [Function.comp_apply, Function.comp_apply, mem_entries_iff.1 he]
  rfl

end SortedMap

namespace Graph

variable {g : Graph} {a b : BlockId}

/-! ## Counts of an edge -/

/-- How often an edge was passed, as its target counts. -/
def arrivals (g : Graph) (a b : BlockId) : Nat := (g.arrivals? a b).elim 0 id

/-- In a mirrored graph both ends count the same. -/
theorem Mirrored.arrivals_eq (h : Mirrored g) (a b : BlockId) :
    g.arrivals a b = g.traversals a b := by
  unfold Graph.arrivals traversals
  rw [h.arrivals]
  cases g.edge? a b <;> rfl

theorem lowered_add_one {n : Nat} (hn : 0 < n) : (lowered n).elim 0 id + 1 = n := by
  unfold lowered
  split <;> simp <;> omega

/-- Taking one back takes exactly one back. -/
theorem Mirrored.traversals_unlinkOnce (h : Mirrored g) {e : Edge} (he : g.edge? a b = some e) :
    (g.unlinkOnce a b).traversals a b + 1 = g.traversals a b := by
  have hlow := lowered_add_one (h.pos he)
  unfold traversals
  rw [edge?_unlinkOnce, if_pos ⟨rfl, rfl⟩, he, Option.bind_some]
  revert hlow
  cases lowered e.count <;> exact fun hlow => hlow

/-! ## Traversals in all -/

/-- What leaves a block, summed over where it may go. -/
theorem Mirrored.outCount_eq (h : Mirrored g) (a : BlockId) :
    (g.block a).outCount = ∑ b ∈ Finset.range g.size, g.traversals a b :=
  SortedMap.sum_values _ _ fun _ _ hb => h.lt_size hb

/-- What enters a block, summed over where it may come from. -/
theorem Mirrored.inCount_eq (h : Mirrored g) (b : BlockId) :
    (g.block b).inCount = ∑ a ∈ Finset.range g.size, g.traversals a b := by
  have hsum := SortedMap.sum_values (g.block b).into id (n := g.size) fun a n hn => by
    obtain ⟨e, he, -⟩ := h.edge?_of_arrivals? hn
    exact lt_size_of_edge? he
  rw [List.map_id] at hsum
  rw [Block.inCount, hsum]
  exact Finset.sum_congr rfl fun a _ => h.arrivals_eq a b

/-- As many traversals leave the blocks of a graph as enter them. -/
theorem Mirrored.sum_outCount (h : Mirrored g) :
    ∑ a ∈ Finset.range g.size, (g.block a).outCount =
      ∑ b ∈ Finset.range g.size, (g.block b).inCount := by
  simp only [h.outCount_eq, h.inCount_eq]
  exact Finset.sum_comm

/-- Every source that a block holds has an edge to it, so no edge into a block is missed. -/
theorem Mirrored.map_source_linksInto (h : Mirrored g) (id : BlockId) :
    (g.linksInto id).map (·.source) = (g.block id).into.keys := by
  unfold linksInto
  rw [List.map_filterMap]
  refine (List.filterMap_congr fun a ha => ?_).trans List.filterMap_some
  obtain ⟨n, hn⟩ := Option.isSome_iff_exists.1 (SortedMap.mem_keys_iff.1 ha)
  obtain ⟨e, he, -⟩ := h.edge?_of_arrivals? hn
  rw [he]
  rfl

/-- Both ends of every edge tell the same, and no operation on edges is led astray by them. -/
structure EdgesAgree (g : Graph) : Prop where
  ends : ∀ a b, (g.edge? a b).isSome ↔ (g.block b).into.contains a
  counts : ∀ {a b e n}, g.edge? a b = some e → (g.block b).into.get? a = some n →
    e.count = n ∧ 1 ≤ e.count ∧ 1 ≤ n
  found : ∀ id, (g.linksInto id).map (·.source) = (g.block id).into.keys
  taken_back : ∀ {a b e}, g.edge? a b = some e →
    (g.unlinkOnce a b).traversals a b + 1 = g.traversals a b ∧
      (g.unlinkOnce a b).arrivals a b + 1 = g.arrivals a b
  balanced : ∑ a ∈ Finset.range g.size, (g.block a).outCount =
    ∑ b ∈ Finset.range g.size, (g.block b).inCount

/-- **Both ends of every edge agree**, whatever operations made the graph: the source holds an edge
exactly when the target holds its source, with one count that is never zero. So every edge into a
block is found, taking a traversal back takes exactly one back at both ends, and as many
traversals leave all blocks as enter them. -/
theorem edges_agree (h : Built g) : EdgesAgree g := by
  have hm := h.mirrored
  refine ⟨fun a b => ?_, fun {a b e n} he hn => ?_, hm.map_source_linksInto, fun {a b e} he => ?_,
    hm.sum_outCount⟩
  · have harr := hm.arrivals a b
    unfold arrivals? at harr
    rw [SortedMap.contains, harr, Option.isSome_map]
  · have harr := hm.arrivals?_eq_some he
    unfold arrivals? at harr
    rw [hn, Option.some.injEq] at harr
    have := hm.pos he
    omega
  · rw [(hm.unlinkOnce a b).arrivals_eq, hm.arrivals_eq]
    exact ⟨hm.traversals_unlinkOnce he, hm.traversals_unlinkOnce he⟩

/-- Two blocks that lead to one another, the second also to itself beyond the limit of counts; the
first absorbs the second and inherits both loops in one. -/
theorem edges_agree_absorbed_loop :
    let apart := (((Graph.new 4).insert (.ofInstruction ⟨0, [0], [], none⟩)).1.insert
      (.ofInstruction ⟨1, [0], [], none⟩)).1
    let looped := (((apart.link 0 1 none 3).link 1 1 (some .taken) countLimit).link 1 1 none 5).link
      1 0 none 2
    let g := (looped.absorb 0 1).unlinkOnce 0 0
    Built g ∧ EdgesAgree g ∧ looped.edge? 1 1 = some ⟨.taken, countLimit⟩ := by
  have hapart : Built (((Graph.new 4).insert (.ofInstruction ⟨0, [0], [], none⟩)).1.insert
      (.ofInstruction ⟨1, [0], [], none⟩)).1 :=
    ((Built.new 4).insert _ rfl rfl).insert _ rfl rfl
  have hlooped := (((hapart.link 0 1 (by decide) (by decide) none 3).link 1 1 (by decide)
    (by decide) (some .taken) countLimit).link 1 1 (by decide) (by decide) none 5).link 1 0
    (by decide) (by decide) none 2
  have hg := (hlooped.absorb 0 1 (by decide) (by decide)).unlinkOnce 0 0
  exact ⟨hg, edges_agree hg, by decide +kernel⟩

/-- Only new blocks without edges will do. A copy of a block that another one leads to counts an
edge that no block holds: the edge into it is not found, and more traversals enter the blocks than
leave them. -/
theorem edges_disagree_copied :
    let apart := (((Graph.new 4).insert (.ofInstruction ⟨0, [0], [], none⟩)).1.insert
      (.ofInstruction ⟨1, [0], [], none⟩)).1
    let g := apart.link 0 1 none 1
    let copied := (g.alloc (g.block 1)).1
    Built g ∧ (copied.block 2).into.contains 0 = true ∧ copied.edge? 0 2 = none ∧
      (copied.block 2).into.keys = [0] ∧ copied.linksInto 2 = [] ∧ ¬EdgesAgree copied := by
  intro apart g copied
  have hapart : Built apart := ((Built.new 4).insert _ rfl rfl).insert _ rfl rfl
  have hg : Built g := hapart.link 0 1 (by decide) (by decide) none 1
  have hheld : (copied.block 2).into.contains 0 = true := by decide +kernel
  have hmissed : copied.edge? 0 2 = none := by decide +kernel
  refine ⟨hg, hheld, hmissed, by decide +kernel, by decide +kernel, fun h => ?_⟩
  have hedge := (h.ends 0 2).2 hheld
  rw [hmissed] at hedge
  cases hedge

end Graph

end TraceFlow
