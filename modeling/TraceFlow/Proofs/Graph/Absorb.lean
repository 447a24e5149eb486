/-
TraceFlow.Proofs.Graph.Absorb — what a join does to a graph.

`absorb` moves the edges of one block to another, one after the other,
appends its instructions, notes where it went, and takes it out of the
index. Later modules do not follow these steps; they use the three
equations here, for blocks, for edges and for paths.

* Blocks. `joined` is the graph before the last step, and
  `absorb_eq` cuts it off, because it is the index alone that tells the
  two apart. `body_absorb` says what becomes of a block that is there;
  `instructions_absorb` says for every block, in range or not, that its own
  instructions stay in front, so a block that has any keeps its address.
* Edges. `edge?_rehomeAll` is the loop over the edges that move, by
  induction on their list, with the graph generalized: each edge that moves
  leaves the rest of the list as it was. It is stated by look-up, for any
  list of edges of the block without repeats.
* A candidate has one edge into it, from the block that absorbs it, and
  that block has no other. Hence `MergeCandidate.edge?_absorb`: afterwards
  the block has the candidate's edges in place of its own, the candidate
  has none, and all others are the same.
* Paths. `MergeCandidate.reaches` sends a path to one in the graph after
  the join, with the candidate replaced by the block that absorbed it. The
  induction is on the path; the one edge that is gone, from the block to
  the candidate, becomes a step from the block to itself.
-/
import TraceFlow.Proofs.Graph.Catalogue
import TraceFlow.Proofs.Graph.Mirror
import TraceFlow.Proofs.Graph.Reach
import TraceFlow.Proofs.SortedMap

namespace TraceFlow.Graph

variable {g : Graph} {p : Profile} {a b x y id next into other : BlockId}

/-! ## Moving edges -/

/-- The edges listed out of a block are those that look-up finds. -/
theorem mem_linksFrom_iff {l : Link} :
    l ∈ g.linksFrom a ↔ l.source = a ∧ g.edge? a l.target = some ⟨l.kind, l.count⟩ := by
  unfold linksFrom edge?
  simp only [List.mem_map]
  constructor
  · rintro ⟨⟨b, e⟩, hmem, rfl⟩
    exact ⟨rfl, SortedMap.mem_entries_iff.1 hmem⟩
  · rintro ⟨rfl, he⟩
    exact ⟨(l.target, ⟨l.kind, l.count⟩), SortedMap.mem_entries_iff.2 he, rfl⟩

theorem map_target_linksFrom (g : Graph) (a : BlockId) :
    (g.linksFrom a).map (·.target) = (g.block a).out.keys := by
  unfold linksFrom SortedMap.keys
  rw [List.map_map]
  rfl

/-- One edge that moves is gone at its old end and there at its new one. -/
theorem edge?_rehome {l : Link} (hne : into ≠ other) (hinto : into < g.size)
    (hother : l.target ≠ other) (hpos : 0 < l.count) (hle : l.count ≤ countLimit)
    (he : g.edge? other l.target = some ⟨l.kind, l.count⟩)
    (hnone : g.edge? into l.target = none) :
    (rehome into other g l).edge? x y =
      if y = l.target then
        if x = other then none else if x = into then g.edge? other y else g.edge? x y
      else g.edge? x y := by
  have hraised : Edge.raised none (some l.kind) l.count = ⟨l.kind, l.count⟩ := by
    simp [Edge.raised, saturate_of_le hle]
  have hparted : (g.unlink other l.target).edge? into l.target = none := by
    rw [edge?_unlink, if_neg fun h => hne h.1, hnone]
  unfold rehome
  rw [if_neg hother, edge?_link (by rwa [size_unlink]) hpos, hparted, hraised, edge?_unlink]
  by_cases hy : y = l.target
  · subst hy
    by_cases hx : x = into
    · subst hx
      simp [hne, he]
    · by_cases hxo : x = other
      · subst hxo
        simp [hx]
      · simp [hx, hxo]
  · simp [hy]

/-- All edges of `ls` leave `into` after they were moved, and none leaves `other`. -/
theorem edge?_rehomeAll (hne : into ≠ other) :
    ∀ (ls : List Link) {g : Graph}, into < g.size → (ls.map (·.target)).Nodup →
      (∀ l ∈ ls, l.target ≠ other ∧ 0 < l.count ∧ l.count ≤ countLimit ∧
        g.edge? other l.target = some ⟨l.kind, l.count⟩ ∧ g.edge? into l.target = none) →
      ∀ x y, (ls.foldl (rehome into other) g).edge? x y =
        if y ∈ ls.map (·.target) then
          if x = other then none else if x = into then g.edge? other y else g.edge? x y
        else g.edge? x y
  | [], g, _, _, _, x, y => by simp
  | l :: ls, g, hinto, hnodup, hls, x, y => by
    obtain ⟨hfirst, hrest⟩ := List.nodup_cons.1 hnodup
    obtain ⟨hother, hpos, hle, he, hnone⟩ := hls l List.mem_cons_self
    have hstep : ∀ x y, (rehome into other g l).edge? x y = _ := fun x y =>
      edge?_rehome hne hinto hother hpos hle he hnone
    have hsize : (rehome into other g l).size = g.size := by
      rw [rehome, size_link, size_unlink]
    have hlater : ∀ l' ∈ ls, l'.target ≠ other ∧ 0 < l'.count ∧ l'.count ≤ countLimit ∧
        (rehome into other g l).edge? other l'.target = some ⟨l'.kind, l'.count⟩ ∧
        (rehome into other g l).edge? into l'.target = none := by
      intro l' hl'
      have hdiffers : l'.target ≠ l.target := by
        intro heq
        exact hfirst (List.mem_map.2 ⟨l', hl', heq⟩)
      obtain ⟨h₁, h₂, h₃, h₄, h₅⟩ := hls l' (List.mem_cons_of_mem _ hl')
      exact ⟨h₁, h₂, h₃, by rw [hstep, if_neg hdiffers, h₄], by rw [hstep, if_neg hdiffers, h₅]⟩
    rw [List.foldl_cons, edge?_rehomeAll hne ls (hsize ▸ hinto) hrest hlater, List.map_cons]
    simp only [hstep, List.mem_cons]
    by_cases hy : y = l.target
    · subst hy
      simp [hfirst]
    · simp [hy]

/-! ## Blocks and index -/

theorem body_takeOver : ((g.takeOver into other).block x).body = (g.block x).body :=
  List.foldlRecOn (motive := fun g' : Graph => (g'.block x).body = (g.block x).body) _ _
    body_unlink fun g' hg' l _ => by rw [rehome, body_link, body_unlink, hg']

@[simp] theorem size_takeOver : (g.takeOver into other).size = g.size :=
  List.foldlRecOn (motive := fun g' : Graph => g'.size = g.size) _ _ (size_unlink ..)
    fun g' hg' l _ => by rw [rehome, size_link, size_unlink, hg']

/-- Moving edges does not touch the index. -/
@[simp] theorem index_takeOver : (g.takeOver into other).index = g.index :=
  List.foldlRecOn (motive := fun g' : Graph => g'.index = g.index) _ _ index_unlink
    fun g' hg' l _ => by rw [rehome, index_link, index_unlink, hg']

@[simp] theorem digits_takeOver : (g.takeOver into other).digits = g.digits :=
  List.foldlRecOn (motive := fun g' : Graph => g'.digits = g.digits) _ _ digits_unlink
    fun g' hg' l _ => by rw [rehome, digits_link, digits_unlink, hg']

/-- The graph after a join, as long as the index still lists the block that was absorbed. -/
def joined (g : Graph) (into other : BlockId) : Graph :=
  let moved := g.takeOver into other
  let tail := (moved.block other).instructions
  (moved.modify into fun b => { b with instructions := b.instructions ++ tail }).modify other
    fun b => { b with mergedInto := some into }

/-- The index is changed last. -/
theorem absorb_eq (g : Graph) (into other : BlockId) :
    g.absorb into other = (g.joined into other).unindex other := rfl

@[simp] theorem size_joined : (g.joined into other).size = g.size := by
  simp [joined]

@[simp] theorem index_joined : (g.joined into other).index = g.index := by
  simp [joined, modify]

@[simp] theorem digits_joined : (g.joined into other).digits = g.digits := by
  simp [joined, modify]

/-- So blocks may be read before that. -/
theorem block_absorb (g : Graph) (into other x : BlockId) :
    (g.absorb into other).block x = (g.joined into other).block x :=
  block_congr (blocks_unindex _ _) x

/-- What a block holds besides edges after a join. -/
theorem body_absorb (hne : into ≠ other) (hx : x < g.size) :
    ((g.absorb into other).block x).body =
      if x = other then { (g.block x).body with mergedInto := some into }
      else if x = into then { (g.block x).body with
        instructions := (g.block x).instructions ++ (g.block other).instructions }
      else (g.block x).body := by
  have hbody : ∀ x, ((g.takeOver into other).block x).body = (g.block x).body :=
    fun x => body_takeOver
  rw [block_absorb]
  unfold joined
  simp only [block_modify, size_modify, size_takeOver]
  generalize g.takeOver into other = moved at hbody
  have hinstructions : ∀ x, (moved.block x).instructions = (g.block x).instructions := fun x =>
    (congrArg Block.instructions (hbody x) :)
  by_cases hxo : x = other
  · subst hxo
    simp only [hne, hx, and_true, if_true, if_false, ← hbody]
    rfl
  · have hox : ¬other = x := fun heq => hxo heq.symm
    by_cases hxi : x = into
    · subst hxi
      simp only [hxo, hox, hx, and_true, if_true, if_false, ← hbody, ← hinstructions]
      rfl
    · have hix : ¬into = x := fun heq => hxi heq.symm
      simp only [hxo, hox, hxi, hix, false_and, if_false, hbody]

@[simp] theorem size_absorb : (g.absorb into other).size = g.size := by
  rw [absorb_eq, (SameEdges.unindex _ _).size, size_joined]

@[simp] theorem digits_absorb : (g.absorb into other).digits = g.digits := by
  rw [absorb_eq, digits_unindex, digits_joined]

/-- A join changes of a block nothing but its edges, instructions and absorber. -/
theorem shell_absorb (hne : into ≠ other) (x : BlockId) :
    ((g.absorb into other).block x).shell = (g.block x).shell := by
  rcases Nat.lt_or_ge x g.size with hx | hx
  · have hbody := body_absorb hne hx
    generalize (g.absorb into other).block x = b at hbody ⊢
    have hshell := congrArg Block.shell hbody
    split at hshell
    · exact hshell
    · split at hshell
      · exact hshell
      · exact hshell
  · rw [block_of_size_le hx, block_of_size_le (by rwa [size_absorb])]

/-- A join notes one block as absorbed. -/
theorem mergedInto_absorb (hne : into ≠ other) (hother : other < g.size) (x : BlockId) :
    ((g.absorb into other).block x).mergedInto =
      if x = other then some into else (g.block x).mergedInto := by
  rcases Nat.lt_or_ge x g.size with hx | hx
  · have hbody := body_absorb hne hx
    generalize (g.absorb into other).block x = b at hbody ⊢
    have hmerged := congrArg Block.mergedInto hbody
    split
    · rename_i heq
      rw [if_pos heq] at hmerged
      exact hmerged
    · rename_i hxo
      rw [if_neg hxo] at hmerged
      split at hmerged
      · exact hmerged
      · exact hmerged
  · have hxo : x ≠ other := fun heq => Nat.not_lt.2 hx (heq ▸ hother)
    rw [if_neg hxo, block_of_size_le hx, block_of_size_le (by rwa [size_absorb])]

/-- A block that takes another one's instructions keeps its own in front. -/
theorem instructions_absorb (g : Graph) (into other x : BlockId) :
    ∃ tail, ((g.absorb into other).block x).instructions = (g.block x).instructions ++ tail := by
  have hbody : ((g.takeOver into other).block x).body = (g.block x).body := body_takeOver
  rw [block_absorb]
  unfold joined
  simp only [block_modify]
  generalize g.takeOver into other = moved at hbody ⊢
  have hkept : (moved.block x).instructions = (g.block x).instructions :=
    (congrArg Block.instructions hbody :)
  rw [← hkept]
  split
  · split
    · exact ⟨_, rfl⟩
    · exact ⟨#[], (Array.append_empty ..).symm⟩
  · split
    · exact ⟨_, rfl⟩
    · exact ⟨#[], (Array.append_empty ..).symm⟩

/-- The instructions of a block that is absorbed follow those of the block that absorbs it. -/
theorem instructions_absorb_eq (hne : into ≠ other) (hx : x < g.size) :
    ((g.absorb into other).block x).instructions =
      if x = into then (g.block x).instructions ++ (g.block other).instructions
      else (g.block x).instructions := by
  have hbody := body_absorb hne hx
  generalize (g.absorb into other).block x = b at hbody ⊢
  have hinstructions := congrArg Block.instructions hbody
  by_cases hxo : x = other
  · subst hxo
    rw [if_pos rfl] at hinstructions
    rw [if_neg hne.symm]
    exact hinstructions
  · rw [if_neg hxo] at hinstructions
    split
    · rename_i hxi
      rw [if_pos hxi] at hinstructions
      exact hinstructions
    · rename_i hxi
      rw [if_neg hxi] at hinstructions
      exact hinstructions

/-- A block that has instructions keeps its address, as they stay in front. -/
theorem pc_absorb (into other : BlockId) (hx : (g.block x).instructions ≠ #[]) :
    ((g.absorb into other).block x).pc = (g.block x).pc := by
  obtain ⟨tail, htail⟩ := instructions_absorb g into other x
  have hpos : 0 < (g.block x).instructions.size := Array.size_pos_iff.2 hx
  rw [Block.pc, Block.pc, htail, Array.getElem?_append_left hpos]

/-- The index lists after a join what it listed before, but for the block that was absorbed. -/
theorem Filed.joined (h : Filed g)
    (hinstructions : ∀ {x}, x < g.size → (g.block x).instructions ≠ #[]) (into other : BlockId) :
    Filed (g.joined into other) := by
  refine h.of_index_eq index_joined (Nat.le_of_eq size_joined.symm) fun x hx => ?_
  rw [← block_absorb]
  exact pc_absorb into other (hinstructions hx)

/-! ## Joining a candidate -/

namespace MergeCandidate

variable (h : g.MergeCandidate p id next)

include h

/-- The only edge out of a block that absorbs another leads to that other block. -/
theorem isSome_edge?_from : (g.edge? id y).isSome ↔ y = next := by
  rw [← mem_successors_iff, Graph.successors, h.successors, List.mem_singleton]

/-- The only edge into a candidate comes from the block that absorbs it. -/
theorem isSome_edge?_into (hm : Mirrored g) : (g.edge? x next).isSome ↔ x = id := by
  obtain ⟨only, honly⟩ : ∃ only, (g.block next).into.keys = [only] := by
    refine List.length_eq_one_iff.1 ?_
    rw [SortedMap.keys, List.length_map, SortedMap.length_entries]
    exact h.nextInDegree
  have hkeys : ∀ x, (g.edge? x next).isSome ↔ x = only := by
    intro x
    have hmem := SortedMap.mem_keys_iff (m := (g.block next).into) (k := x)
    rw [honly, List.mem_singleton] at hmem
    rw [hmem, ← arrivals?, hm.arrivals, Option.isSome_map]
  rw [hkeys, (hkeys id).1 (h.isSome_edge?_from.2 rfl)]

/-- A candidate has no edge to itself: its only one comes from another block. -/
theorem edge?_next_next (hm : Mirrored g) : g.edge? next next = none := by
  rw [← Option.not_isSome_iff_eq_none, h.isSome_edge?_into hm]
  exact h.unequal

theorem lt_size : id < g.size := by
  obtain ⟨e, he⟩ := Option.isSome_iff_exists.1 (h.isSome_edge?_from.2 rfl)
  exact lt_size_of_edge? he

/-- A block that an edge leads to is one of the graph. -/
theorem next_lt_size (hm : Mirrored g) : next < g.size := by
  obtain ⟨e, he⟩ := Option.isSome_iff_exists.1 (h.isSome_edge?_from.2 rfl)
  exact hm.lt_size he

/-- After a join the block has the candidate's edges instead of its own, and the candidate none. -/
theorem edge?_absorb (hm : Mirrored g) (x y : BlockId) :
    (g.absorb id next).edge? x y =
      if x = next then none else if x = id then g.edge? next y else g.edge? x y := by
  have hparted : ∀ x y, (g.unlink id next).edge? x y =
      if x = id ∧ y = next then none else g.edge? x y := fun x y => edge?_unlink
  have hnext : ∀ y, (g.unlink id next).edge? next y = g.edge? next y := by
    intro y
    rw [hparted, if_neg fun heq => h.unequal heq.1]
  have hid : ∀ y, (g.unlink id next).edge? id y = none := by
    intro y
    rw [hparted]
    split
    · rfl
    · rename_i hy
      rw [← Option.not_isSome_iff_eq_none, h.isSome_edge?_from]
      exact fun heq => hy ⟨rfl, heq⟩
  have htargets : ∀ y, y ∈ ((g.unlink id next).linksFrom next).map (·.target) ↔
      (g.edge? next y).isSome := by
    intro y
    rw [map_target_linksFrom, SortedMap.mem_keys_iff, ← hnext]
    rfl
  have hnodup : (((g.unlink id next).linksFrom next).map (·.target)).Nodup := by
    rw [map_target_linksFrom]
    exact SortedMap.nodup_keys _
  have hls : ∀ l ∈ (g.unlink id next).linksFrom next, l.target ≠ next ∧ 0 < l.count ∧
      l.count ≤ countLimit ∧ (g.unlink id next).edge? next l.target = some ⟨l.kind, l.count⟩ ∧
      (g.unlink id next).edge? id l.target = none := by
    intro l hl
    obtain ⟨-, he⟩ := mem_linksFrom_iff.1 hl
    have he' := (hnext l.target).symm.trans he
    refine ⟨fun heq => ?_, hm.pos he', hm.le he', he, hid _⟩
    rw [heq, h.edge?_next_next hm] at he'
    cases he'
  rw [(SameEdges.absorb g id next).edge?, takeOver,
    edge?_rehomeAll h.unequal.symm _ (by rw [size_unlink]; exact h.lt_size) hnodup hls]
  simp only [htargets, hnext]
  by_cases hx : x = next
  · subst hx
    by_cases hy : (g.edge? x y).isSome
    · rw [if_pos hy, if_pos rfl, if_pos rfl]
    · rw [if_neg hy, if_pos rfl, hnext]
      simpa using hy
  · by_cases hxi : x = id
    · subst hxi
      by_cases hy : (g.edge? next y).isSome
      · simp only [hx, hy, if_true, if_false]
      · simp only [hx, hy, if_true, if_false, hid]
        exact (Option.not_isSome_iff_eq_none.1 hy).symm
    · have hsame : (g.unlink id next).edge? x y = g.edge? x y := by
        rw [hparted, if_neg fun heq => hxi heq.1]
      simp only [hx, hxi, if_false, hsame, ite_self]

/-! ## Paths -/

/-- A path stays when the candidate's place in it goes to the block that absorbed it. -/
theorem reaches (hm : Mirrored g) (hab : g.Reaches a b) :
    (g.absorb id next).Reaches (if a = next then id else a) (if b = next then id else b) := by
  have hedge : ∀ {x y}, ((g.absorb id next).edge? x y).isSome →
      y ∈ (g.absorb id next).successors x := mem_successors_iff.2
  induction hab with
  | here a => exact .here _
  | @step a b c edge _ ih =>
    have he := mem_successors_iff.1 edge
    by_cases hid : a = id
    · -- the edge that the join takes away
      subst hid
      have hb := h.isSome_edge?_from.1 he
      rw [if_pos hb] at ih
      rwa [if_neg h.unequal.symm]
    · have hb : b ≠ next := fun heq => hid ((h.isSome_edge?_into hm).1 (heq ▸ he))
      rw [if_neg hb] at ih
      refine .step (hedge ?_) ih
      rw [h.edge?_absorb hm]
      by_cases ha : a = next
      · subst ha
        rw [if_pos rfl, if_neg h.unequal.symm, if_pos rfl]
        exact he
      · rwa [if_neg ha, if_neg ha, if_neg hid]

end MergeCandidate

end TraceFlow.Graph
