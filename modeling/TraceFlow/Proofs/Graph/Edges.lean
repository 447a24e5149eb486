/-
TraceFlow.Proofs.Graph.Edges — what each operation does to the edges of a
graph, seen through look-up.

An edge is kept twice, at its source with kind and count, and at its target
with the count alone. `edge?` is the view from the source, `arrivals?` the
view from the target. For every operation on edges one lemma says what each
view shows afterwards, as a conditional on the ends that were asked for; no
later module opens the maps behind the views, or the operations themselves.

* The lemmas are in pairs, `edge?_link` and `arrivals?_link`, and the same
  for `unlink`, `unlinkOnce`, `alloc`. The two are not symmetric: linking
  raises a count on both sides, but a kind on one; unlinking looks for the
  edge at its source only, so `arrivals?_unlink` needs to know that the
  target does not hold more.
* `traversals_link` is the count that later modules ask for, with zero for
  an edge that is not there.
* `Block.body` is a block without its edges, and `body_link`, `body_unlink`
  say that these operations touch nothing else. `Block.content` and
  `Block.shell` leave out more, for the operations that mark blocks or join
  them. An equation between such parts is projected where it is needed.
* `SameEdges` relates graphs that differ in anything but edges. It is closed
  under composition, and each operation that draws no edge has its instance.

The conditions `a < g.size` are where the model and its arena differ from a
map: a block that is not there cannot be changed, so nothing is linked.
-/
import TraceFlow.Graph.Links

namespace TraceFlow

/-! ## Counts -/

theorem saturate_le (n : Nat) : saturate n ≤ countLimit := Nat.min_le_right _ _

/-- Below the limit a count is what it is. -/
theorem saturate_of_le {n : Nat} (h : n ≤ countLimit) : saturate n = n := Nat.min_eq_left h

theorem countLimit_pos : 0 < countLimit := by
  unfold countLimit
  rw [wordSize_32]
  decide

/-- A count that is held at the limit is positive if it was. -/
theorem saturate_pos {n : Nat} (h : 0 < n) : 0 < saturate n := by
  have := countLimit_pos
  unfold saturate
  omega

theorem saturate_mono {m n : Nat} (h : m ≤ n) : saturate m ≤ saturate n := by
  unfold saturate
  omega

/-! ## Blocks without their edges -/

def Block.body (b : Block) : Block := { b with out := ∅, into := ∅ }

/-- The block without its edges, its kind and its mark. -/
def Block.content (b : Block) : Block := { b.body with kind := .code, takenFound := false }

/-- The block without its edges, its instructions and its absorber. -/
def Block.shell (b : Block) : Block := { b.body with instructions := #[], mergedInto := none }

namespace Graph

variable {g : Graph} {a b x y id : BlockId} {kind : Option LinkKind} {n : Nat}

/-! ## The two views -/

/-- How often the block `b` holds that it was entered from `a`. -/
def arrivals? (g : Graph) (a b : BlockId) : Option Nat := (g.block b).into.get? a

/-- How often an edge was passed, as its source counts. -/
def traversals (g : Graph) (a b : BlockId) : Nat := (g.edge? a b).elim 0 (·.count)

/-- Only blocks of the graph have edges. -/
theorem lt_size_of_edge? {e : Edge} (he : g.edge? a b = some e) : a < g.size := by
  rcases Nat.lt_or_ge a g.size with hlt | hge
  · exact hlt
  · rw [edge?, block_of_size_le hge] at he
    simp [Block.missing] at he

theorem lt_size_of_arrivals? (hn : g.arrivals? a b = some n) : b < g.size := by
  rcases Nat.lt_or_ge b g.size with hlt | hge
  · exact hlt
  · rw [arrivals?, block_of_size_le hge] at hn
    simp [Block.missing] at hn

/-- A block depends on the arena alone. -/
theorem block_congr {g' : Graph} (hblocks : g'.blocks = g.blocks) (id : BlockId) :
    g'.block id = g.block id := by
  rw [block, block, hblocks]

/-! ## Changing one block -/

/-- A change that keeps the edges out of blocks keeps all edges. -/
theorem edge?_modify {f : Block → Block} (keeps : ∀ b, (f b).out = b.out) :
    (g.modify id f).edge? a b = g.edge? a b := by
  unfold edge?
  rw [block_modify]
  split
  · rw [keeps]
  · rfl

theorem arrivals?_modify {f : Block → Block} (keeps : ∀ b, (f b).into = b.into) :
    (g.modify id f).arrivals? a b = g.arrivals? a b := by
  unfold arrivals?
  rw [block_modify]
  split
  · rw [keeps]
  · rfl

/-- A change of edges alone leaves the bodies. -/
theorem body_modify {f : Block → Block} (keeps : ∀ b, (f b).body = b.body) :
    ((g.modify id f).block x).body = (g.block x).body := by
  rw [block_modify]
  split
  · rw [keeps]
  · rfl

theorem content_modify {f : Block → Block}
    (hf : ∀ b, (f b).content = b.content) :
    ((g.modify x f).block id).content = (g.block id).content := by
  rw [block_modify]
  split
  · exact hf _
  · rfl

/-! ## Linking -/

/-- To link no times does nothing. -/
theorem link_zero (g : Graph) (a b : BlockId) (kind : Option LinkKind) :
    g.link a b kind 0 = g := by
  unfold link
  rw [if_pos rfl]

/-- Linking raises one edge, as its source sees it. -/
theorem edge?_link (ha : a < g.size) (hn : 0 < n) :
    (g.link a b kind n).edge? x y =
      if x = a ∧ y = b then some (.raised (g.edge? a b) kind n) else g.edge? x y := by
  have hn : n ≠ 0 := by omega
  unfold link
  rw [if_neg hn]
  simp only
  refine (edge?_modify ?_).trans ?_
  · exact fun _ => rfl
  unfold edge?
  rw [block_modify]
  by_cases hx : a = x
  · subst hx
    by_cases hy : y = b <;> simp [ha, hy, SortedMap.get?_insert]
  · have hx' : ¬x = a := fun e => hx e.symm
    simp [hx, hx']

/-- The target sees the count, and no kind. -/
theorem arrivals?_link (hb : b < g.size) (hn : 0 < n) :
    (g.link a b kind n).arrivals? x y =
      if x = a ∧ y = b then some (saturate ((g.arrivals? a b).getD 0 + n))
      else g.arrivals? x y := by
  have hn : n ≠ 0 := by omega
  unfold link
  rw [if_neg hn]
  simp only
  generalize hl : (g.modify a fun s => _) = left
  have hleft : ∀ x y, left.arrivals? x y = g.arrivals? x y := by
    subst hl
    exact fun _ _ => arrivals?_modify fun _ => rfl
  have hsize : left.size = g.size := by
    subst hl
    exact size_modify ..
  unfold arrivals? at hleft ⊢
  rw [block_modify]
  by_cases hy : b = y
  · subst hy
    by_cases hx : x = a <;> simp [hsize, hb, hx, SortedMap.get?_insert, hleft]
  · have hy' : ¬y = b := fun e => hy e.symm
    simp [hy, hy', hleft]

/-- One edge was passed more often, up to the limit. -/
theorem traversals_link (ha : a < g.size) (hn : 0 < n) :
    (g.link a b kind n).traversals x y =
      if x = a ∧ y = b then saturate (g.traversals a b + n) else g.traversals x y := by
  unfold traversals
  rw [edge?_link ha hn]
  split
  · cases g.edge? a b <;> rfl
  · rfl

/-- Linking touches nothing but edges. -/
theorem body_link : ((g.link a b kind n).block x).body = (g.block x).body := by
  unfold link
  split
  · rfl
  · simp only
    rw [body_modify, body_modify] <;> exact fun _ => rfl

theorem content_link : ((g.link a b kind n).block id).content = (g.block id).content :=
  congrArg (fun b : Block => { b with kind := .code, takenFound := false }) body_link

theorem kind_link : ((g.link a b kind n).block id).kind = (g.block id).kind := by
  change ((g.link a b kind n).block id).body.kind = (g.block id).body.kind
  rw [body_link]

@[simp] theorem index_link : (g.link a b kind n).index = g.index := by
  unfold link
  split <;> rfl

@[simp] theorem digits_link : (g.link a b kind n).digits = g.digits := by
  unfold link
  split <;> rfl

/-! ## Unlinking -/

/-- Unlinking takes one edge away. -/
theorem edge?_unlink :
    (g.unlink a b).edge? x y = if x = a ∧ y = b then none else g.edge? x y := by
  unfold unlink
  split
  · rename_i hnone
    split
    · rename_i hxy
      rw [hxy.1, hxy.2, hnone]
    · rfl
  · rename_i hsome
    have ha := lt_size_of_edge? hsome
    simp only
    refine (edge?_modify ?_).trans ?_
    · exact fun _ => rfl
    unfold edge?
    rw [block_modify]
    by_cases hx : a = x
    · subst hx
      by_cases hy : y = b <;> simp [ha, hy, SortedMap.get?_erase]
    · have hx' : ¬x = a := fun e => hx e.symm
      simp [hx, hx']

/-- The target's view of an unlinked edge; an edge that was not there is not there afterwards
either, provided its target held nothing for it. -/
theorem arrivals?_unlink (hnone : g.edge? a b = none → g.arrivals? a b = none) :
    (g.unlink a b).arrivals? x y = if x = a ∧ y = b then none else g.arrivals? x y := by
  unfold unlink
  split
  · rename_i he
    split
    · rename_i hxy
      rw [hxy.1, hxy.2, hnone he]
    · rfl
  · simp only
    generalize hl : (g.modify a fun s => _) = left
    have hleft : ∀ x y, left.arrivals? x y = g.arrivals? x y := by
      subst hl
      exact fun _ _ => arrivals?_modify fun _ => rfl
    have hsize : left.size = g.size := by
      subst hl
      exact size_modify ..
    unfold arrivals? at hleft ⊢
    rw [block_modify]
    by_cases hy : b = y
    · subst hy
      rcases Nat.lt_or_ge b g.size with hb | hb
      · by_cases hx : x = a <;> simp [hsize, hb, hx, SortedMap.get?_erase, hleft]
      · simp [hsize, Nat.not_lt.2 hb, hleft, block_of_size_le hb, Block.missing]
    · have hy' : ¬y = b := fun e => hy e.symm
      simp [hy, hy', hleft]

theorem body_unlink : ((g.unlink a b).block x).body = (g.block x).body := by
  unfold unlink
  split
  · rfl
  · simp only
    rw [body_modify, body_modify] <;> exact fun _ => rfl

@[simp] theorem index_unlink : (g.unlink a b).index = g.index := by
  unfold unlink
  split <;> rfl

@[simp] theorem digits_unlink : (g.unlink a b).digits = g.digits := by
  unfold unlink
  split <;> rfl

/-! ## Taking one traversal back -/

/-- A count with one traversal taken back; the last one leaves nothing. -/
def lowered (n : Nat) : Option Nat := if n ≤ 1 then none else some (n - 1)

/-- One traversal less; an edge that was passed once is gone. -/
theorem edge?_unlinkOnce :
    (g.unlinkOnce a b).edge? x y =
      if x = a ∧ y = b then
        (g.edge? a b).bind fun e => (lowered e.count).map fun n => { e with count := n }
      else g.edge? x y := by
  unfold unlinkOnce
  split
  · rename_i hnone
    split
    · rename_i hxy
      rw [hxy.1, hxy.2, hnone]
      rfl
    · rfl
  · rename_i e hsome
    have ha := lt_size_of_edge? hsome
    simp only
    refine (edge?_modify ?_).trans ?_
    · intro t
      split <;> rfl
    rw [hsome]
    unfold edge? lowered
    rw [block_modify]
    by_cases hx : a = x
    · subst hx
      by_cases hc : e.count ≤ 1 <;> by_cases hy : y = b <;>
        simp [ha, hc, hy, SortedMap.get?_erase, SortedMap.get?_insert]
    · have hx' : ¬x = a := fun e => hx e.symm
      simp [hx, hx']

theorem arrivals?_unlinkOnce {e : Edge} (he : g.edge? a b = some e) :
    (g.unlinkOnce a b).arrivals? x y =
      if x = a ∧ y = b then (g.arrivals? a b).bind lowered else g.arrivals? x y := by
  unfold unlinkOnce
  rw [he]
  simp only
  generalize hl : (g.modify a fun s => _) = left
  have hleft : ∀ x y, left.arrivals? x y = g.arrivals? x y := by
    subst hl
    exact fun _ _ => arrivals?_modify fun _ => rfl
  have hsize : left.size = g.size := by
    subst hl
    exact size_modify ..
  unfold arrivals? lowered at *
  rw [block_modify]
  by_cases hy : b = y
  · subst hy
    rcases Nat.lt_or_ge b g.size with hb | hb
    · rw [if_pos ⟨rfl, hsize ▸ hb⟩, hleft a b]
      cases hn : (g.block b).into.get? a with
      | none =>
        by_cases hx : x = a
        · subst hx
          simp [hleft, hn]
        · simp [hx, hleft]
      | some n =>
        by_cases hc : n ≤ 1 <;> by_cases hx : x = a <;>
          simp [hc, hx, hleft, SortedMap.get?_erase, SortedMap.get?_insert]
    · simp [hsize, Nat.not_lt.2 hb, hleft, block_of_size_le hb, Block.missing]
  · have hy' : ¬y = b := fun e => hy e.symm
    simp [hy, hy', hleft]

theorem body_unlinkOnce : ((g.unlinkOnce a b).block x).body = (g.block x).body := by
  unfold unlinkOnce
  split
  · rfl
  · simp only
    rw [body_modify, body_modify]
    · exact fun _ => rfl
    · intro t
      split <;> rfl

@[simp] theorem size_unlinkOnce (g : Graph) (a b : BlockId) : (g.unlinkOnce a b).size = g.size := by
  unfold unlinkOnce
  split <;> simp

@[simp] theorem index_unlinkOnce : (g.unlinkOnce a b).index = g.index := by
  unfold unlinkOnce
  split <;> rfl

/-! ## Creating blocks -/

/-- A new block stands at the end of the arena. -/
theorem block_alloc (g : Graph) (b : Block) (id : BlockId) :
    (g.alloc b).1.block id = if id = g.size then b else g.block id := by
  unfold alloc block size
  simp only [Array.getElem?_push]
  split <;> rfl

@[simp] theorem size_alloc (g : Graph) (b : Block) : (g.alloc b).1.size = g.size + 1 := by
  simp [alloc, size]

@[simp] theorem snd_alloc (g : Graph) (b : Block) : (g.alloc b).2 = g.size := rfl

@[simp] theorem index_alloc (g : Graph) (b : Block) : (g.alloc b).1.index = g.index := rfl

@[simp] theorem digits_alloc (g : Graph) (b : Block) : (g.alloc b).1.digits = g.digits := rfl

theorem blocks_insert (g : Graph) (b : Block) : (g.insert b).1.blocks = (g.alloc b).1.blocks := rfl

theorem block_insert (g : Graph) (b : Block) (id : BlockId) :
    (g.insert b).1.block id = if id = g.size then b else g.block id := by
  rw [block_congr (blocks_insert g b), block_alloc]

@[simp] theorem size_insert (g : Graph) (b : Block) : (g.insert b).1.size = g.size + 1 :=
  size_alloc g b

/-- What a new block has in common with a missing one, a graph keeps when the block is added. -/
theorem map_block_alloc {α : Type} {f : Block → α} {new : Block} (hnew : f new = f .missing)
    (x : BlockId) : f ((g.alloc new).1.block x) = f (g.block x) := by
  rw [block_alloc]
  split
  · rename_i hx
    rw [hnew, block_of_size_le (Nat.le_of_eq hx.symm)]
  · rfl

/-- A new block without edges changes none. -/
theorem edge?_alloc {new : Block} (hnew : new.out = ∅) :
    (g.alloc new).1.edge? x y = g.edge? x y :=
  congrArg (·.get? y) (map_block_alloc (f := Block.out) hnew x)

theorem edge?_insert {new : Block} (hnew : new.out = ∅) :
    (g.insert new).1.edge? x y = g.edge? x y := by
  rw [edge?, block_congr (blocks_insert g new)]
  exact edge?_alloc hnew

theorem arrivals?_alloc {new : Block} (hnew : new.into = ∅) :
    (g.alloc new).1.arrivals? x y = g.arrivals? x y :=
  congrArg (·.get? x) (map_block_alloc (f := Block.into) hnew y)

/-! ## Graphs with the same edges -/

/-- The second graph has the blocks and edges of the first, and may differ in all else that its
blocks and its index hold. -/
structure SameEdges (g g' : Graph) : Prop where
  size : g'.size = g.size
  out : ∀ id, (g'.block id).out = (g.block id).out
  into : ∀ id, (g'.block id).into = (g.block id).into

namespace SameEdges

variable {g' g'' : Graph}

theorem refl (g : Graph) : SameEdges g g := ⟨rfl, fun _ => rfl, fun _ => rfl⟩

/-- The same edges over two changes. -/
theorem trans (h : SameEdges g g') (h' : SameEdges g' g'') : SameEdges g g'' :=
  ⟨h'.size.trans h.size, fun id => (h'.out id).trans (h.out id),
    fun id => (h'.into id).trans (h.into id)⟩

theorem edge? (h : SameEdges g g') (a b : BlockId) : g'.edge? a b = g.edge? a b := by
  rw [Graph.edge?, Graph.edge?, h.out]

theorem arrivals? (h : SameEdges g g') (a b : BlockId) : g'.arrivals? a b = g.arrivals? a b := by
  rw [Graph.arrivals?, Graph.arrivals?, h.into]

theorem traversals (h : SameEdges g g') (a b : BlockId) :
    g'.traversals a b = g.traversals a b := by
  rw [Graph.traversals, Graph.traversals, h.edge?]

/-- Graphs with one arena have the same edges, whatever their index. -/
theorem of_blocks (hblocks : g'.blocks = g.blocks) : SameEdges g g' :=
  ⟨by rw [Graph.size, Graph.size, hblocks], fun id => by rw [block_congr hblocks],
    fun id => by rw [block_congr hblocks]⟩

theorem modify {f : Block → Block} (hout : ∀ b, (f b).out = b.out)
    (hinto : ∀ b, (f b).into = b.into) : SameEdges g (g.modify id f) := by
  refine ⟨size_modify .., fun j => ?_, fun j => ?_⟩
  · rw [block_modify]
    split
    · rw [hout]
    · rfl
  · rw [block_modify]
    split
    · rw [hinto]
    · rfl

theorem unindex (g : Graph) (id : BlockId) : SameEdges g (g.unindex id) :=
  of_blocks (blocks_unindex g id)

/-- Numbering draws no edge. -/
theorem number (g : Graph) (ids : List BlockId) : SameEdges g (g.number ids) := by
  refine List.foldlRecOn _ _ (refl g) fun g' hg place _ => hg.trans ?_
  exact modify (fun _ => rfl) fun _ => rfl

end SameEdges

end Graph

end TraceFlow
