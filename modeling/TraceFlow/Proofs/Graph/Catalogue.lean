/-
TraceFlow.Proofs.Graph.Catalogue — what the address index lists.

There are two notions, for two times in the life of a graph.

`Filed` holds always: the index lists blocks of the graph at their own
addresses, none twice, and keeps no empty list. Operations that create
blocks or take them out of the index keep it (`Filed.insert`,
`Filed.unindex`, `Filed.of_index_eq` for the rest). The last clause makes
an index without blocks empty (`Filed.index_eq_empty`).

`Catalogued` holds while a trace is recorded, when nothing has been taken
out: the index lists all blocks, in order of creation; no two blocks of one
address have the same opcode; and the blocks of an address that has
several are numbered by their places. So an instruction has one block at
most, and `Catalogued.find?_eq_some_iff` says which.

An instruction gets its block by `place`. That is a look-up and, if need
be, `enter`, a new block with the numbering of its address
(`place_of_find?_none`, `place_of_find?_some`). `enter` is defined here,
since its step can be stated for any new block (`Catalogued.enter`), while
`place` makes those of instructions only. Numbering goes through a list of
blocks; `block_number` says what it does to each, from
`block_numberFrom`, the same with a first number, by induction on the list.

The last lemmas are the interface for the recorder. They say what
`Catalogued.place` does to the size, to old blocks and to the new one, and
`Catalogued.congr` that the catalogue depends on index and content alone.
-/
import TraceFlow.Proofs.Graph.Edges

namespace TraceFlow.Graph

variable {g g' : Graph} {id : BlockId} {pc : Address}

/-! ## Look-up in the index -/

/-- What is listed depends on the index alone. -/
theorem listedAt_congr (hindex : g'.index = g.index) (pc : Address) :
    g'.listedAt pc = g.listedAt pc := by
  rw [listedAt, listedAt, hindex]

theorem get?_index_insert (g : Graph) (b : Block) (pc : Address) :
    (g.insert b).1.index.get? pc =
      if pc = b.pc then some (g.listedAt b.pc ++ [g.size]) else g.index.get? pc :=
  SortedMap.get?_insert ..

/-- A new block is listed last at its address. -/
theorem listedAt_insert (g : Graph) (b : Block) (pc : Address) :
    (g.insert b).1.listedAt pc =
      if pc = b.pc then g.listedAt pc ++ [g.size] else g.listedAt pc := by
  unfold listedAt
  rw [get?_index_insert]
  split
  · rename_i h
    rw [h]
    rfl
  · rfl

theorem get?_index_unindex (g : Graph) (id : BlockId) (pc : Address) :
    (g.unindex id).index.get? pc =
      if pc = (g.block id).pc then
        (g.index.get? pc).bind fun ids =>
          let kept := ids.filter (· ≠ id)
          if kept.isEmpty then none else some kept
      else g.index.get? pc := by
  unfold unindex
  simp only
  split
  · rename_i hnone
    split
    · rename_i hpc
      rw [hpc, hnone]
      rfl
    · rfl
  · rename_i ids hsome
    simp only
    by_cases hpc : pc = (g.block id).pc
    · rw [if_pos hpc, hpc, hsome, Option.bind_some]
      split
      · rw [SortedMap.get?_erase, if_pos rfl]
      · rw [SortedMap.get?_insert, if_pos rfl]
    · rw [if_neg hpc]
      split
      · rw [SortedMap.get?_erase, if_neg hpc]
      · rw [SortedMap.get?_insert, if_neg hpc]

@[simp] theorem digits_unindex (g : Graph) (id : BlockId) : (g.unindex id).digits = g.digits := by
  unfold unindex
  simp only
  split <;> rfl

/-- A block that is taken out is listed at its address no more. -/
theorem listedAt_unindex (g : Graph) (id : BlockId) (pc : Address) :
    (g.unindex id).listedAt pc =
      if pc = (g.block id).pc then (g.listedAt pc).filter (· ≠ id) else g.listedAt pc := by
  unfold listedAt
  rw [get?_index_unindex]
  split
  · cases g.index.get? pc with
    | none => rfl
    | some ids =>
      simp only [Option.bind_some, Option.getD_some]
      split
      · rename_i hempty
        rw [List.isEmpty_iff.1 hempty]
        rfl
      · rfl
  · rfl

/-- The index lists what it lists at some address. -/
theorem mem_indexed_iff : id ∈ g.indexed ↔ ∃ pc, id ∈ g.listedAt pc := by
  unfold indexed listedAt
  simp only [List.mem_flatten, SortedMap.values, List.mem_map]
  constructor
  · rintro ⟨ids, ⟨⟨pc, ids⟩, hmem, rfl⟩, hid⟩
    refine ⟨pc, ?_⟩
    rw [SortedMap.mem_entries_iff.1 hmem]
    exact hid
  · rintro ⟨pc, hid⟩
    cases hget : g.index.get? pc with
    | none =>
      rw [hget] at hid
      cases hid
    | some ids =>
      rw [hget] at hid
      exact ⟨ids, ⟨(pc, ids), SortedMap.mem_entries_iff.2 hget, rfl⟩, hid⟩

/-! ## Blocks at their own addresses -/

/-- The index lists blocks of the graph at their own addresses, none twice, and no address with an
empty list. -/
structure Filed (g : Graph) : Prop where
  lt_size : ∀ {pc id}, id ∈ g.listedAt pc → id < g.size
  pc_eq : ∀ {pc id}, id ∈ g.listedAt pc → (g.block id).pc = pc
  nodup : ∀ pc, (g.listedAt pc).Nodup
  nonempty : ∀ pc, g.index.get? pc ≠ some []

namespace Filed

/-- What is filed stays filed when blocks keep their addresses and the index does not change. -/
theorem of_index_eq (h : Filed g) (hindex : g'.index = g.index) (hsize : g.size ≤ g'.size)
    (hpc : ∀ id, id < g.size → (g'.block id).pc = (g.block id).pc) : Filed g' := by
  refine ⟨fun {pc id} hid => ?_, fun {pc id} hid => ?_, fun pc => ?_, fun pc => ?_⟩
  · rw [listedAt_congr hindex] at hid
    exact Nat.lt_of_lt_of_le (h.lt_size hid) hsize
  · rw [listedAt_congr hindex] at hid
    rw [hpc id (h.lt_size hid)]
    exact h.pc_eq hid
  · rw [listedAt_congr hindex]
    exact h.nodup pc
  · rw [hindex]
    exact h.nonempty pc

/-- A block that leaves the index is listed nowhere, and every other block where it was. -/
theorem listedAt_unindex (h : Filed g) (id : BlockId) (pc : Address) :
    (g.unindex id).listedAt pc = (g.listedAt pc).filter (· ≠ id) := by
  rw [Graph.listedAt_unindex]
  split
  · rfl
  · rename_i hpc
    refine (List.filter_eq_self.2 fun other hother => ?_).symm
    have hne : other ≠ id := by
      rintro rfl
      exact hpc (h.pc_eq hother).symm
    simpa using hne

/-- Taking a block out keeps the lists in order, since no empty one is left. -/
theorem unindex (h : Filed g) (id : BlockId) : Filed (g.unindex id) := by
  have hmem : ∀ {pc other}, other ∈ (g.unindex id).listedAt pc → other ∈ g.listedAt pc := by
    intro pc other hother
    rw [h.listedAt_unindex] at hother
    exact (List.mem_filter.1 hother).1
  have hblock := block_congr (blocks_unindex g id)
  refine ⟨fun {pc other} hother => ?_, fun {pc other} hother => ?_, fun pc => ?_, fun pc => ?_⟩
  · rw [(SameEdges.unindex g id).size]
    exact h.lt_size (hmem hother)
  · rw [hblock]
    exact h.pc_eq (hmem hother)
  · rw [h.listedAt_unindex]
    exact (h.nodup pc).filter _
  · rw [get?_index_unindex]
    split
    · cases g.index.get? pc with
      | none => simp
      | some ids =>
        simp only [Option.bind_some]
        split
        · simp
        · rename_i hkept
          rw [ne_eq, Option.some.injEq]
          exact fun heq => hkept (List.isEmpty_iff.2 heq)
    · exact h.nonempty pc

/-- A new block is entered at the end of the list of its address. -/
theorem insert (h : Filed g) (b : Block) : Filed (g.insert b).1 := by
  have hlt : ∀ {pc id}, id ∈ (g.insert b).1.listedAt pc →
      id ∈ g.listedAt pc ∨ id = g.size ∧ pc = b.pc := by
    intro pc id hid
    rw [listedAt_insert] at hid
    split at hid
    · rename_i hpc
      rcases List.mem_append.1 hid with hid | hid
      · exact .inl hid
      · exact .inr ⟨List.mem_singleton.1 hid, hpc⟩
    · exact .inl hid
  refine ⟨fun {pc id} hid => ?_, fun {pc id} hid => ?_, fun pc => ?_, fun pc => ?_⟩
  · rw [size_insert]
    rcases hlt hid with hold | ⟨rfl, -⟩
    · exact Nat.lt_succ_of_lt (h.lt_size hold)
    · exact Nat.lt_succ_self _
  · rw [block_insert]
    rcases hlt hid with hold | ⟨rfl, hpc⟩
    · rw [if_neg (Nat.ne_of_lt (h.lt_size hold))]
      exact h.pc_eq hold
    · rw [if_pos rfl, hpc]
  · rw [listedAt_insert]
    split
    · refine List.nodup_append.2
        ⟨h.nodup pc, List.pairwise_singleton _ _, fun id hid new hnew => ?_⟩
      rw [List.mem_singleton.1 hnew]
      exact Nat.ne_of_lt (h.lt_size hid)
    · exact h.nodup pc
  · rw [get?_index_insert]
    split
    · simp
    · exact h.nonempty pc

/-- An address without blocks has no list. -/
theorem get?_eq_none (h : Filed g) (hempty : g.listedAt pc = []) : g.index.get? pc = none := by
  cases hget : g.index.get? pc with
  | none => rfl
  | some ids =>
    rw [listedAt, hget, Option.getD_some] at hempty
    rw [hempty] at hget
    exact absurd hget (h.nonempty pc)

/-- An index that lists no block is empty. -/
theorem index_eq_empty (h : Filed g) (hempty : ∀ pc, g.listedAt pc = []) : g.index = ∅ := by
  refine SortedMap.ext_get? fun pc => ?_
  rw [h.get?_eq_none (hempty pc), SortedMap.get?_empty]

end Filed

/-! ## Numbering -/

/-- Numbering from some number on, by induction on the list. -/
theorem block_numberFrom :
    ∀ (ids : List BlockId) (k : Nat) (g : Graph) (j : BlockId), ids.Nodup →
      ((ids.zipIdx k).foldl
        (fun g e => g.modify e.1 fun b => { b with ordinal := some e.2 }) g).block j =
      if j ∈ ids ∧ j < g.size then { g.block j with ordinal := some (k + ids.idxOf j) }
      else g.block j
  | [], k, g, j, _ => by simp
  | i :: ids, k, g, j, hnodup => by
    obtain ⟨hi, hids⟩ := List.nodup_cons.1 hnodup
    rw [List.zipIdx_cons, List.foldl_cons, block_numberFrom ids (k + 1) _ j hids, size_modify,
      block_modify]
    by_cases hij : i = j
    · subst hij
      by_cases hlt : i < g.size <;> simp [hi, hlt]
    · have hji : j ≠ i := fun h => hij h.symm
      have hidx : (i :: ids).idxOf j = ids.idxOf j + 1 := by
        rw [List.idxOf_cons, beq_eq_false_iff_ne.2 hij, cond_false]
      simp only [hij, false_and, if_false, List.mem_cons, hji, false_or, hidx]
      split
      · rw [Nat.add_right_comm, Nat.add_assoc]
      · rfl

/-- Numbering writes the place of every block of a list into the block. -/
theorem block_number {ids : List BlockId} (hids : ids.Nodup) (g : Graph) (j : BlockId) :
    (g.number ids).block j =
      if j ∈ ids ∧ j < g.size then { g.block j with ordinal := some (ids.idxOf j) }
      else g.block j := by
  unfold number
  simpa using block_numberFrom ids 0 g j hids

/-- Numbering leaves the index as it is. -/
@[simp] theorem index_number (g : Graph) (ids : List BlockId) :
    (g.number ids).index = g.index :=
  List.foldlRecOn (motive := fun g' : Graph => g'.index = g.index) _ _ rfl fun _ h _ _ => h

@[simp] theorem size_number (g : Graph) (ids : List BlockId) : (g.number ids).size = g.size :=
  (SameEdges.number g ids).size

/-! ## Complete indexes -/

/-- The ordinal that a block has by its place in a list. -/
def ordinalIn (ids : List BlockId) (id : BlockId) : Option Nat :=
  if 1 < ids.length then some (ids.idxOf id) else none

/-- The index lists every block, at its address and in order of creation. No two blocks at one
address have the same opcode, and the blocks of an address that has several are numbered. -/
structure Catalogued (g : Graph) : Prop where
  listed : ∀ pc, g.listedAt pc = g.ids.filter fun id => (g.block id).pc = pc
  distinct : ∀ {a b}, a < g.size → b < g.size → (g.block a).pc = (g.block b).pc →
    (g.block a).opcode = (g.block b).opcode → a = b
  ordinal : ∀ {id}, id < g.size →
    (g.block id).ordinal = ordinalIn (g.listedAt (g.block id).pc) id
  nonempty : ∀ pc, g.index.get? pc ≠ some []

namespace Catalogued

/-- A complete index lists every block at its address. -/
theorem mem_listedAt_iff (h : Catalogued g) :
    id ∈ g.listedAt pc ↔ id < g.size ∧ (g.block id).pc = pc := by
  rw [h.listed, List.mem_filter, ids, List.mem_range, decide_eq_true_eq]

/-- A complete index is in order. -/
theorem filed (h : Catalogued g) : Filed g := by
  refine ⟨fun hid => (h.mem_listedAt_iff.1 hid).1, fun hid => (h.mem_listedAt_iff.1 hid).2,
    fun pc => ?_, h.nonempty⟩
  rw [h.listed]
  exact List.nodup_range.filter _

/-- The block of an instruction is the one with its address and opcode. -/
theorem find?_eq_some_iff (h : Catalogued g) {inst : Instruction} :
    g.find? inst = some id ↔
      id < g.size ∧ (g.block id).pc = inst.pc ∧ (g.block id).opcode = inst.opcode := by
  unfold find?
  constructor
  · intro hfind
    obtain ⟨hlt, hpc⟩ := h.mem_listedAt_iff.1 (List.mem_of_find?_eq_some hfind)
    exact ⟨hlt, hpc, by simpa using List.find?_some hfind⟩
  · rintro ⟨hlt, hpc, hopcode⟩
    cases hfind : (g.listedAt inst.pc).find? fun id => (g.block id).opcode = inst.opcode with
    | none =>
      have := List.find?_eq_none.1 hfind id (h.mem_listedAt_iff.2 ⟨hlt, hpc⟩)
      exact absurd hopcode (by simpa using this)
    | some other =>
      obtain ⟨holt, hopc⟩ := h.mem_listedAt_iff.1 (List.mem_of_find?_eq_some hfind)
      have hsame : (g.block other).opcode = inst.opcode := by simpa using List.find?_some hfind
      rw [h.distinct holt hlt (hopc.trans hpc.symm) (hsame.trans hopcode.symm)]

end Catalogued

/-! ## Entering a block -/

/-- The graph with a new block that the index lists; when its address has several, all of them are
numbered. -/
def enter (g : Graph) (b : Block) : Graph :=
  let g' := (g.insert b).1
  if 1 < (g'.listedAt b.pc).length then g'.number (g'.listedAt b.pc) else g'

@[simp] theorem size_enter (g : Graph) (b : Block) : (g.enter b).size = g.size + 1 := by
  unfold enter
  simp only
  split <;> simp

/-- A new block is entered as one without a number is. -/
@[simp] theorem index_enter (g : Graph) (b : Block) :
    (g.enter b).index = (g.insert b).1.index := by
  unfold enter
  simp only
  split <;> simp

/-- A block at an address without others is entered by `insert` alone. -/
theorem enter_eq_insert {b : Block} (halone : g.listedAt b.pc = []) :
    g.enter b = (g.insert b).1 := by
  unfold enter
  simp only
  rw [listedAt_insert, if_pos rfl, halone]
  rfl

/-- Numbering is a matter of blocks, not of edges. -/
theorem SameEdges.enter (g : Graph) (b : Block) : SameEdges (g.insert b).1 (g.enter b) := by
  unfold Graph.enter
  simp only
  split
  · exact .number ..
  · exact .refl _

/-- Entering a block changes the ordinals at its address and nothing else. -/
theorem Filed.block_enter (h : Filed g) {b : Block} (hb : b.ordinal = none) (id : BlockId) :
    (g.enter b).block id =
      if id ∈ (g.enter b).listedAt b.pc then
        { (g.insert b).1.block id with ordinal := ordinalIn ((g.enter b).listedAt b.pc) id }
      else (g.insert b).1.block id := by
  have hentered := h.insert b
  rw [listedAt_congr (index_enter g b)]
  unfold enter ordinalIn
  simp only
  split
  · rw [block_number (hentered.nodup _)]
    by_cases hid : id ∈ (g.insert b).1.listedAt b.pc
    · rw [if_pos ⟨hid, hentered.lt_size hid⟩, if_pos hid]
    · rw [if_neg fun e => hid e.1, if_neg hid]
  · rename_i hshort
    split
    · rename_i hid
      -- a list of one block holds the new one alone
      rw [listedAt_insert, if_pos rfl] at hid hshort
      have hnil : g.listedAt b.pc = [] := by
        rw [List.length_append, List.length_singleton] at hshort
        exact List.eq_nil_of_length_eq_zero (by omega)
      rw [hnil, List.nil_append, List.mem_singleton] at hid
      rw [hid, block_insert, if_pos rfl, ← hb]
    · rfl

namespace Catalogued

/-- The lists stay complete, whatever ordinals there are. -/
theorem listed_insert (h : Catalogued g) (b : Block) (pc : Address) :
    (g.insert b).1.listedAt pc =
      (g.insert b).1.ids.filter fun id => ((g.insert b).1.block id).pc = pc := by
  have hold : (g.ids.filter fun id => ((g.insert b).1.block id).pc = pc) = g.listedAt pc := by
    rw [h.listed]
    refine List.filter_congr fun id hid => ?_
    rw [block_insert, if_neg (Nat.ne_of_lt (List.mem_range.1 hid))]
  have hids : (g.insert b).1.ids = g.ids ++ [g.size] := by
    rw [ids, size_insert, List.range_succ]
    rfl
  rw [listedAt_insert, hids, List.filter_append, hold]
  by_cases hpc : pc = b.pc
  · simp [block_insert, hpc]
  · have hpc' : ¬b.pc = pc := fun e => hpc e.symm
    simp [block_insert, hpc, hpc']

/-- Entering a block whose address and opcode no other block has completes the index again. -/
theorem enter (h : Catalogued g) {b : Block} (hb : b.ordinal = none)
    (hnew : ∀ id, id < g.size → (g.block id).pc = b.pc → (g.block id).opcode ≠ b.opcode) :
    Catalogued (g.enter b) := by
  have hpc : ∀ id, ((g.enter b).block id).pc = ((g.insert b).1.block id).pc := by
    intro id
    rw [h.filed.block_enter hb]
    split <;> rfl
  have hopcode : ∀ id, ((g.enter b).block id).opcode = ((g.insert b).1.block id).opcode := by
    intro id
    rw [h.filed.block_enter hb]
    split <;> rfl
  have hlisted : ∀ pc, (g.enter b).listedAt pc =
      (g.enter b).ids.filter fun id => ((g.enter b).block id).pc = pc := by
    intro pc
    simp only [hpc]
    rw [listedAt_congr (index_enter g b), h.listed_insert, ids, ids, size_enter, size_insert]
  refine ⟨hlisted, fun {x y} hx hy hxy hop => ?_, fun {id} hid => ?_, fun pc => ?_⟩
  · rw [hpc, hpc, block_insert, block_insert] at hxy
    rw [hopcode, hopcode, block_insert, block_insert] at hop
    rw [size_enter] at hx hy
    have hx' := Nat.lt_succ_iff_lt_or_eq.1 hx
    have hy' := Nat.lt_succ_iff_lt_or_eq.1 hy
    rcases hx' with hx' | rfl <;> rcases hy' with hy' | rfl
    · rw [if_neg (Nat.ne_of_lt hx'), if_neg (Nat.ne_of_lt hy')] at hxy hop
      exact h.distinct hx' hy' hxy hop
    · rw [if_neg (Nat.ne_of_lt hx'), if_pos rfl] at hxy hop
      exact absurd hop (hnew x hx' hxy)
    · rw [if_pos rfl, if_neg (Nat.ne_of_lt hy')] at hxy hop
      exact absurd hop.symm (hnew y hy' hxy.symm)
    · rfl
  · by_cases hmem : id ∈ (g.enter b).listedAt b.pc
    · have hown : ((g.enter b).block id).pc = b.pc := by
        rw [hlisted] at hmem
        simpa using (List.mem_filter.1 hmem).2
      rw [hown, h.filed.block_enter hb, if_pos hmem]
    · have hne : ((g.enter b).block id).pc ≠ b.pc := fun e => hmem (by
        rw [hlisted]
        exact List.mem_filter.2 ⟨List.mem_range.2 hid, by simpa using e⟩)
      have hold : id ≠ g.size := by
        rintro rfl
        rw [hpc, block_insert, if_pos rfl] at hne
        exact hne rfl
      have hlt : id < g.size := by
        rw [size_enter] at hid
        exact (Nat.lt_succ_iff_lt_or_eq.1 hid).resolve_right hold
      rw [listedAt_congr (index_enter g b), listedAt_insert, if_neg hne, h.filed.block_enter hb,
        if_neg hmem, block_insert, if_neg hold]
      exact h.ordinal hlt
  · rw [index_enter, get?_index_insert]
    split
    · simp
    · exact h.nonempty pc

end Catalogued

/-- An empty graph lists all of its blocks. -/
theorem Catalogued.new (digits : Nat) : Catalogued (Graph.new digits) := by
  have hget : ∀ pc, (Graph.new digits).index.get? pc = none := fun pc => SortedMap.get?_empty pc
  refine ⟨fun pc => ?_, fun hx => absurd hx (Nat.not_lt_zero _),
    fun hid => absurd hid (Nat.not_lt_zero _), fun pc => ?_⟩
  · rw [listedAt, hget]
    rfl
  · rw [hget]
    exact fun h => nomatch h

/-- A block at an address without others completes the index again. -/
theorem Catalogued.insert (h : Catalogued g) {b : Block} (hb : b.ordinal = none)
    (halone : ∀ id, id < g.size → (g.block id).pc ≠ b.pc) : Catalogued (g.insert b).1 := by
  have hlisted : g.listedAt b.pc = [] := by
    rw [h.listed, List.filter_eq_nil_iff]
    intro id hid
    simpa using halone id (List.mem_range.1 hid)
  rw [← enter_eq_insert hlisted]
  exact h.enter hb fun id hid hpc => absurd hpc (halone id hid)

/-! ## Placing an instruction -/

/-- An instruction without a block gets a new one. -/
theorem place_of_find?_none {inst : Instruction} (hnone : g.find? inst = none) :
    g.place inst = (g.enter (.ofInstruction inst), g.size) := by
  unfold place insertSibling
  rw [hnone]
  rfl

/-- One that has a block changes nothing. -/
theorem place_of_find?_some {inst : Instruction} (hsome : g.find? inst = some id) :
    g.place inst = (g, id) := by
  unfold place
  rw [hsome]

/-- Placing an instruction keeps the index complete. -/
theorem Catalogued.place (h : Catalogued g) (inst : Instruction) :
    Catalogued (g.place inst).1 := by
  cases hfind : g.find? inst with
  | none =>
    rw [place_of_find?_none hfind]
    refine h.enter rfl fun id hid hpc hopcode => ?_
    have hsome : g.find? inst = some id := h.find?_eq_some_iff.2 ⟨hid, hpc, hopcode⟩
    rw [hfind] at hsome
    cases hsome
  | some id =>
    rw [place_of_find?_some hfind]
    exact h

/-- An instruction is placed at the block of its address and opcode. -/
theorem Catalogued.find?_place (h : Catalogued g) (inst : Instruction) :
    (g.place inst).1.find? inst = some (g.place inst).2 := by
  rw [(h.place inst).find?_eq_some_iff]
  cases hfind : g.find? inst with
  | none =>
    rw [place_of_find?_none hfind]
    have hb := h.filed.block_enter (b := .ofInstruction inst) rfl g.size
    rw [block_insert, if_pos rfl] at hb
    refine ⟨by simp, ?_, ?_⟩ <;>
    · dsimp only
      rw [hb]
      split <;> rfl
  | some id =>
    rw [place_of_find?_some hfind]
    exact h.find?_eq_some_iff.1 hfind

/-- To find or create a block draws no edge. -/
theorem edge?_place (g : Graph) (inst : Instruction) (a b : BlockId) :
    (g.place inst).1.edge? a b = g.edge? a b := by
  cases hfind : g.find? inst with
  | none =>
    rw [place_of_find?_none hfind, (SameEdges.enter g _).edge?]
    exact edge?_insert rfl
  | some id => rw [place_of_find?_some hfind]

/-- An instruction has its block in the graph, or gets the next number. -/
theorem Catalogued.size_place (h : Catalogued g) (inst : Instruction) :
    ((g.place inst).1.size = g.size ∧ (g.place inst).2 < g.size) ∨
      ((g.place inst).1.size = g.size + 1 ∧ (g.place inst).2 = g.size) := by
  cases hfind : g.find? inst with
  | none =>
    rw [place_of_find?_none hfind]
    exact .inr ⟨size_enter g _, rfl⟩
  | some id =>
    rw [place_of_find?_some hfind]
    exact .inl ⟨rfl, (h.find?_eq_some_iff.1 hfind).1⟩

/-- Placing an instruction changes the ordinals of blocks and nothing else. -/
theorem Catalogued.block_place (h : Catalogued g) (inst : Instruction) (hid : id < g.size) :
    ∃ ordinal, (g.place inst).1.block id = { g.block id with ordinal := ordinal } := by
  cases hfind : g.find? inst with
  | none =>
    have hblock := h.filed.block_enter (b := .ofInstruction inst) rfl id
    rw [block_insert, if_neg (Nat.ne_of_lt hid)] at hblock
    rw [place_of_find?_none hfind]
    simp only [hblock]
    split
    · exact ⟨_, rfl⟩
    · exact ⟨_, rfl⟩
  | some other =>
    rw [place_of_find?_some hfind]
    exact ⟨_, rfl⟩

/-- A block made for an instruction holds that instruction alone. -/
theorem Catalogued.block_place_new (h : Catalogued g) {inst : Instruction}
    (hnew : (g.place inst).2 = g.size) :
    ∃ ordinal, (g.place inst).1.block g.size =
      { Block.ofInstruction inst with ordinal := ordinal } := by
  cases hfind : g.find? inst with
  | none =>
    have hblock := h.filed.block_enter (b := .ofInstruction inst) rfl g.size
    rw [block_insert, if_pos rfl] at hblock
    rw [place_of_find?_none hfind]
    simp only [hblock]
    split
    · exact ⟨_, rfl⟩
    · exact ⟨_, rfl⟩
  | some other =>
    rw [place_of_find?_some hfind] at hnew
    exact absurd hnew (Nat.ne_of_lt (h.find?_eq_some_iff.1 hfind).1)

/-- A graph is catalogued as another is when their blocks differ in kinds, marks and edges only. -/
theorem Catalogued.congr (h : Catalogued g) (hindex : g'.index = g.index)
    (hsize : g'.size = g.size) (hcontent : ∀ id, (g'.block id).content = (g.block id).content) :
    Catalogued g' := by
  have hpc : ∀ id, (g'.block id).pc = (g.block id).pc := fun id =>
    (congrArg Block.pc (hcontent id) :)
  have hopcode : ∀ id, (g'.block id).opcode = (g.block id).opcode := fun id =>
    (congrArg Block.opcode (hcontent id) :)
  have hordinal : ∀ id, (g'.block id).ordinal = (g.block id).ordinal := fun id =>
    (congrArg Block.ordinal (hcontent id) :)
  refine ⟨fun pc => ?_, fun {x y} hx hy hxy hop => ?_, fun {id} hid => ?_, fun pc => ?_⟩
  · rw [listedAt_congr hindex, h.listed, ids, ids, hsize]
    simp only [hpc]
  · rw [hpc, hpc] at hxy
    rw [hopcode, hopcode] at hop
    rw [hsize] at hx hy
    exact h.distinct hx hy hxy hop
  · rw [hsize] at hid
    rw [hordinal, hpc, listedAt_congr hindex, h.ordinal hid]
  · rw [hindex]
    exact h.nonempty pc

end TraceFlow.Graph
