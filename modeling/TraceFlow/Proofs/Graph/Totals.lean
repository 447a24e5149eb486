/-
TraceFlow.Proofs.Graph.Totals — how often the edges of a graph are passed
in all.

`total` sums the counts of all edges. It is the sum of what leaves all
blocks (`total_eq_sum`, by the list of edges), so statements about it are
reduced to one block at a time, and those to sums of traversals over all
other blocks: `Mirrored.outCount_eq` and `Mirrored.inCount_eq`. Through
them both directions are the same computation, and an operation on one edge
changes one term of a sum (`sum_edge`).

* `Mirrored.counts_link` says what linking adds at every block, out and in
  together. The new count must fit below the limit, as nothing is added
  beyond it. `Mirrored.outCount_unlink` is stated with the edge on the left,
  to stay away from subtraction.
* `Raw.outCount_split`: leading a call to its marker takes an edge away and
  draws one of the same count from the same block, so what leaves a block
  stays. It is by induction over the calls, each while it is there.
* `total_straightens`: joining straight lines loses what was passed from one
  block of a chain to the next, and nothing else. What leaves the blocks of
  a chain is what passes along it and what leaves its last block
  (`sum_outCount_chain`, by induction on the chain); the joined block has
  the edges of the last, and the chains divide the blocks.

Blocks that are not in the graph have no counts (`counts_of_size_le`), so
the sums over a growing graph need no side condition.
-/
import TraceFlow.Proofs.Graph.Markers
import TraceFlow.Proofs.Graph.StraightLines

namespace TraceFlow

/-- Nothing leaves a block without edges. -/
theorem Block.outCount_eq_zero {b : Block} (h : b.out = ∅) : b.outCount = 0 := by
  simp [Block.outCount, h, SortedMap.values]

namespace Graph

variable {g g' : Graph} {m : Merged} {entries : List BlockId} {start a b x y id : BlockId}
  {kind : Option LinkKind} {n : Nat} {chain : BlockId → List BlockId} {head : BlockId → BlockId}

/-! ## Sums -/

def total (g : Graph) : Nat := (g.links.map (·.count)).sum

theorem sum_flatMap {α : Type} (l : List α) (f : α → List Nat) :
    (l.flatMap f).sum = (l.map fun a => (f a).sum).sum := by
  induction l with
  | nil => rfl
  | cons a l ih => simp [ih]

/-- What leaves a block is the sum of its edges. -/
theorem sum_linksFrom (g : Graph) (a : BlockId) :
    ((g.linksFrom a).map (·.count)).sum = (g.block a).outCount := by
  unfold linksFrom Block.outCount SortedMap.values
  rw [List.map_map, List.map_map, ← List.sum_eq_foldr]
  rfl

/-- All traversals leave the blocks. -/
theorem total_eq_sum (g : Graph) : g.total = (g.ids.map fun a => (g.block a).outCount).sum := by
  rw [total, links, List.map_flatMap, sum_flatMap]
  exact congrArg List.sum (List.map_congr_left fun a _ => sum_linksFrom g a)

/-- The same as a finite sum. -/
theorem total_eq (g : Graph) : g.total = ∑ a ∈ Finset.range g.size, (g.block a).outCount :=
  total_eq_sum g

/-- Summed over the blocks at one end, an edge counts once at the other. -/
theorem sum_edge (hb : b < n) (P : Prop) [Decidable P] (carried : Nat) :
    (∑ y ∈ Finset.range n, if P ∧ y = b then carried else 0) = if P then carried else 0 := by
  by_cases hP : P <;> simp [hP, hb]

/-! ## Single operations -/

/-- A block that is not there is neither left nor entered. -/
theorem counts_of_size_le (hid : g.size ≤ id) :
    (g.block id).outCount = 0 ∧ (g.block id).inCount = 0 := by
  rw [block_of_size_le hid]
  exact ⟨rfl, rfl⟩

/-- What leaves a block depends on the edges alone. -/
theorem SameEdges.outCount (h : SameEdges g g') (id : BlockId) :
    (g'.block id).outCount = (g.block id).outCount := by
  rw [Block.outCount, Block.outCount, h.out]

theorem SameEdges.inCount (h : SameEdges g g') (id : BlockId) :
    (g'.block id).inCount = (g.block id).inCount := by
  rw [Block.inCount, Block.inCount, h.into]

/-- New blocks that nothing leaves add nothing. -/
theorem total_congr (hle : g.size ≤ g'.size)
    (hout : ∀ id, (g'.block id).outCount = (g.block id).outCount) : g'.total = g.total := by
  rw [total_eq, total_eq]
  simp only [hout]
  refine (Finset.sum_subset (Finset.range_subset_range.2 hle) fun id _ hid => ?_).symm
  exact (counts_of_size_le (Nat.le_of_not_lt fun hlt => hid (Finset.mem_range.2 hlt))).1

theorem SameEdges.total (h : SameEdges g g') : g'.total = g.total :=
  total_congr (Nat.le_of_eq h.size.symm) h.outCount

namespace Mirrored

/-- An edge is passed at most as often as its target is entered. -/
theorem traversals_le_inCount (h : Mirrored g) (ha : a < g.size) :
    g.traversals a b ≤ (g.block b).inCount := by
  rw [h.inCount_eq, ← Finset.add_sum_erase _ _ (Finset.mem_range.2 ha)]
  exact Nat.le_add_right ..

/-- Linking adds its count at both ends, as long as the edge can hold it. -/
theorem counts_link (h : Mirrored g) (ha : a < g.size) (hb : b < g.size) (hn : 0 < n)
    (hfits : g.traversals a b + n ≤ countLimit) (x : BlockId) :
    ((g.link a b kind n).block x).outCount = (g.block x).outCount + (if x = a then n else 0) ∧
      ((g.link a b kind n).block x).inCount =
        (g.block x).inCount + if x = b then n else 0 := by
  have htraversals : ∀ x y, (g.link a b kind n).traversals x y =
      g.traversals x y + if x = a ∧ y = b then n else 0 := by
    intro x y
    rw [traversals_link ha hn, saturate_of_le hfits]
    split
    · rename_i hends
      rw [hends.1, hends.2]
    · rfl
  have hlinked := h.link ha hb kind n
  rw [hlinked.outCount_eq, hlinked.inCount_eq, h.outCount_eq, h.inCount_eq, size_link]
  refine ⟨?_, ?_⟩
  · simp only [htraversals, Finset.sum_add_distrib, sum_edge hb]
  · simp only [htraversals, Finset.sum_add_distrib, and_comm (b := x = b), sum_edge ha]

/-- Linking adds to the total what it adds to one edge. -/
theorem total_link (h : Mirrored g) (ha : a < g.size) (hb : b < g.size) (hn : 0 < n)
    (hfits : g.traversals a b + n ≤ countLimit) : (g.link a b kind n).total = g.total + n := by
  rw [total_eq, total_eq, size_link]
  simp [(h.counts_link ha hb hn hfits _).1, Finset.sum_add_distrib, ha]

/-- Unlinking takes at the source what the edge carried. -/
theorem outCount_unlink (h : Mirrored g) (hb : b < g.size) :
    ((g.unlink a b).block x).outCount + (if x = a then g.traversals a b else 0) =
      (g.block x).outCount := by
  have htraversals : ∀ y, g.traversals x y =
      (g.unlink a b).traversals x y + if x = a ∧ y = b then g.traversals a b else 0 := by
    intro y
    rw [traversals, traversals, edge?_unlink]
    split
    · rename_i hends
      rw [hends.1, hends.2]
      exact (Nat.zero_add _).symm
    · rfl
  rw [(h.unlink a b).outCount_eq, h.outCount_eq, size_unlink]
  simp only [htraversals, Finset.sum_add_distrib, sum_edge hb]

end Mirrored

/-- A new block without edges changes no count. -/
theorem counts_alloc {new : Block} (hout : new.out = ∅) (hinto : new.into = ∅) (x : BlockId) :
    ((g.alloc new).1.block x).outCount = (g.block x).outCount ∧
      ((g.alloc new).1.block x).inCount = (g.block x).inCount :=
  ⟨map_block_alloc (f := Block.outCount) (by rw [Block.outCount, hout]; rfl) x,
    map_block_alloc (f := Block.inCount) (by rw [Block.inCount, hinto]; rfl) x⟩

theorem counts_insert {new : Block} (hout : new.out = ∅) (hinto : new.into = ∅) (x : BlockId) :
    ((g.insert new).1.block x).outCount = (g.block x).outCount ∧
      ((g.insert new).1.block x).inCount = (g.block x).inCount := by
  rw [block_congr (blocks_insert g new)]
  exact counts_alloc hout hinto x

/-- Giving an instruction its block moves nothing. -/
theorem counts_place (g : Graph) (inst : Instruction) (x : BlockId) :
    ((g.place inst).1.block x).outCount = (g.block x).outCount ∧
      ((g.place inst).1.block x).inCount = (g.block x).inCount := by
  cases hfind : g.find? inst with
  | none =>
    have hsame := SameEdges.enter g (.ofInstruction inst)
    rw [place_of_find?_none hfind, hsame.outCount, hsame.inCount]
    exact counts_insert rfl rfl x
  | some id =>
    rw [place_of_find?_some hfind]
    exact ⟨rfl, rfl⟩

/-! ## Leading calls to markers -/

/-- A call that is led to a marker is passed as often as before. -/
theorem Mirrored.outCount_divertCall (h : Mirrored g) {call : Link} {entry : BlockId}
    (hentry : entry < g.size) (he : g.edge? call.source entry = some ⟨call.kind, call.count⟩) :
    ((Graph.divertCall entry g call).block x).outCount = (g.block x).outCount := by
  have hsource := lt_size_of_edge? he
  have hparted := h.unlink call.source entry
  have hmade := hparted.alloc (g.callMarker entry) rfl rfl
  -- nothing leads to the new marker before
  have hnone : ((g.unlink call.source entry).alloc (g.callMarker entry)).1.traversals call.source
      g.size = 0 := by
    rw [traversals, edge?_alloc rfl, hparted.edge?_eq_none (by simp)]
    rfl
  have hcarried : g.traversals call.source entry = call.count := by
    rw [traversals, he]
    rfl
  have hunlinked := h.outCount_unlink (x := x) (a := call.source) hentry
  rw [hcarried] at hunlinked
  unfold Graph.divertCall
  simp only [snd_alloc, size_unlink]
  rw [(hmade.counts_link (by simp [Nat.lt_succ_of_lt hsource]) (by simp) (h.pos he)
    (by simpa [hnone] using h.le he) x).1, (counts_alloc rfl rfl x).1]
  exact hunlinked

namespace Raw

/-- Every block is left as often after its calls were led to markers as before. -/
theorem outCount_split (h : Raw start g) (x : BlockId) :
    ((g.splitCallSites start).1.block x).outCount = (g.block x).outCount := by
  have hentries : ∀ entry ∈ g.functionEntries, entry < g.size := fun entry hentry =>
    (h.mem_functionEntries_iff.1 hentry).1
  have hrun : (Mirrored (g.splitCallSites start).1 ∧ g.size ≤ (g.splitCallSites start).1.size) ∧
      ∀ x, ((g.splitCallSites start).1.block x).outCount = (g.block x).outCount := by
    refine splitCallSites_live (P := fun g' => (Mirrored g' ∧ g.size ≤ g'.size) ∧
      ∀ x, (g'.block x).outCount = (g.block x).outCount) start
      ⟨⟨h.mirrored, Nat.le_refl _⟩, fun _ => rfl⟩ And.left hentries ?_
    rintro g' entry call hentry - he ⟨⟨hm, hle⟩, hout⟩
    refine ⟨⟨hm.divertCall (lt_size_of_edge? he), ?_⟩, fun x => ?_⟩
    · rw [size_divertCall]
      exact Nat.le_succ_of_le hle
    · rw [hm.outCount_divertCall (Nat.lt_of_lt_of_le (hentries entry hentry) hle) he, hout]
  exact hrun.2 x

/-- Leading calls to markers loses no traversal. -/
theorem total_split (h : Raw start g) : (g.splitCallSites start).1.total = g.total :=
  total_congr h.split.size_le h.outCount_split

end Raw

/-! ## Joining straight lines -/

/-- How often the edges from one block of a list to the next were passed. -/
def along (g : Graph) : List BlockId → Nat
  | a :: b :: rest => g.traversals a b + g.along (b :: rest)
  | _ => 0

/-- All that leaves a block goes to the one that follows it. -/
theorem Follows.outCount (h : g.Follows a b) : (g.block a).outCount = g.traversals a b := by
  obtain ⟨⟨c, e⟩, hentries, hc⟩ := List.map_eq_singleton_iff.1 h.1
  have he : g.edge? a b = some e := by
    refine SortedMap.mem_entries_iff.1 ?_
    rw [hentries, ← hc]
    exact List.mem_singleton_self _
  simp [Block.outCount, SortedMap.values, hentries, traversals, he]

/-- What leaves the blocks of a chain goes on in the chain, or leaves its last block. -/
theorem sum_outCount_chain {l : List BlockId} (h : l.IsChain g.Follows) :
    (l.map fun x => (g.block x).outCount).sum =
      l.getLast?.elim 0 (fun x => (g.block x).outCount) + g.along l := by
  induction l with
  | nil => rfl
  | cons a rest ih =>
    cases rest with
    | nil => simp [along]
    | cons b rest =>
      obtain ⟨hab, hrest⟩ := List.isChain_cons_cons.1 h
      rw [List.map_cons, List.sum_cons, ih hrest, hab.outCount, along, List.getLast?_cons_cons]
      omega

/-- Joining straight lines loses what was passed inside chains. -/
theorem total_straightens (h : Straightens chain head g m)
    (hisolated : ∀ {b}, (m.graph.block b).mergedInto ≠ none → (m.graph.block b).out = ∅) :
    m.graph.total + (g.ids.map fun b => g.along (chain b)).sum = g.total := by
  have hchain : ∀ b ∈ g.ids, (m.graph.block b).outCount + g.along (chain b) =
      ((chain b).map fun x => (g.block x).outCount).sum := by
    intro b hb
    rw [sum_outCount_chain (h.straight b)]
    congr 1
    by_cases hmerged : (m.graph.block b).mergedInto = none
    · have hhead := (h.survives (List.mem_range.1 hb)).1 hmerged
      obtain ⟨last, hlast⟩ : ∃ last, (chain b).getLast? = some last :=
        ⟨_, List.getLast?_eq_some_getLast (List.ne_nil_of_mem (List.mem_of_mem_head? hhead))⟩
      rw [hlast, Option.elim_some, Block.outCount, Block.outCount, h.out hlast]
    · rw [h.absorbed hmerged, Block.outCount_eq_zero (hisolated hmerged)]
      rfl
  have hdivided := (h.divided.map fun x => (g.block x).outCount).sum_eq
  rw [List.map_flatMap, sum_flatMap] at hdivided
  rw [total_eq_sum, total_eq_sum, ← hdivided, ids, h.size, ← ids, ← List.sum_map_add]
  exact congrArg List.sum (List.map_congr_left hchain)

end Graph

end TraceFlow
