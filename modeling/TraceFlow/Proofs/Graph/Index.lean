/-
TraceFlow.Proofs.Graph.Index — the address index as a view of the arena.

The index could hold anything. What makes it a view is that every operation
keeps two things, and the claim about it is assembled from them.

* `Stocked`, from the module before: blocks are listed at their own
  addresses, none twice, and no list is empty.
* `Ascending`: the numbers at one address ascend. A number is entered at the
  end of a list and is greater than all before it, and to take a number out
  keeps the rest in order. `Assembled.ascending` is the induction over the
  operations that make a graph.

`IndexExact` reads both off together: the whole list of the index is in the
order of addresses and, at one address, of creation. `TakenOut` says what it
means to take a block out: all other blocks are listed as before, the arena
stays, and the answer tells whether the block was listed
(`snd_takeOut`, by the lengths of the list before and after). `Placed` says
what it means to give an instruction its block: the first that is listed at
its address with its opcode, or else a new one, listed last, with all
blocks of that address numbered if there are several (`Created`).

`address_index_exact` puts the three together for every graph that
operations make. It does not say that the index is complete, as a block may
be taken out of it, and may be created without it.
-/
import TraceFlow.Proofs.Graph.Assembled
import TraceFlow.Proofs.Graph.Division

namespace TraceFlow.Graph

variable {g g' : Graph} {b : Block} {id x : BlockId} {pc : Address}

/-! ## Lists ascend -/

/-- The index lists the blocks at each address in order of creation. -/
def Ascending (g : Graph) : Prop := ∀ pc, (g.listedAt pc).Pairwise (· < ·)

namespace Ascending

theorem of_index_eq (h : Ascending g) (hindex : g'.index = g.index) : Ascending g' := fun pc => by
  rw [listedAt_congr hindex]
  exact h pc

/-- A new number is greater than all that are listed. -/
theorem insert (h : Ascending g) (hfiled : Filed g) (b : Block) : Ascending (g.insert b).1 := by
  intro pc
  rw [listedAt_insert]
  split
  · refine List.pairwise_append.2 ⟨h pc, List.pairwise_singleton _ _, fun id hid new hnew => ?_⟩
    rw [List.mem_singleton.1 hnew]
    exact hfiled.lt_size hid
  · exact h pc

/-- An instruction adds one number or none. -/
theorem place (h : Ascending g) (hfiled : Filed g) (inst : Instruction) :
    Ascending (g.place inst).1 := by
  cases hfind : g.find? inst with
  | none =>
    rw [place_of_find?_none hfind]
    exact (h.insert hfiled _).of_index_eq (index_enter ..)
  | some id =>
    rw [place_of_find?_some hfind]
    exact h

/-- What is left of a list ascends as it did. -/
theorem unindex (h : Ascending g) (hfiled : Filed g) (id : BlockId) :
    Ascending (g.unindex id) := by
  intro pc
  rw [hfiled.listedAt_unindex]
  exact (h pc).filter _

end Ascending

/-- The induction over the operations that make a graph. -/
theorem Assembled.ascending (h : Assembled g) : Ascending g := by
  induction h with
  | new digits => exact (Catalogued.new digits).ordered_listedAt
  | alloc _ _ ih => exact ih.of_index_eq rfl
  | insert hg _ ih => exact ih.insert hg.stocked.filed _
  | place hg inst ih => exact ih.place hg.stocked.filed inst
  | link _ _ _ _ _ ih => exact ih.of_index_eq index_link
  | unlinkOnce _ _ _ ih => exact ih.of_index_eq index_unlinkOnce
  | unlink _ _ _ ih => exact ih.of_index_eq index_unlink
  | unindex hg id ih => exact ih.unindex hg.stocked.filed id
  | absorb hg into other ih =>
    have hjoined := hg.stocked.filed.joined hg.stocked.instructions into other
    exact (ih.of_index_eq index_joined).unindex hjoined other
  | retouch _ _ _ ih => exact ih.of_index_eq rfl

/-! ## The index as a view -/

/-- The index lists blocks under their own addresses, each once, by address and at one address in
order of creation; it holds no empty list, and both ways to ask it about a block agree. -/
structure IndexExact (g : Graph) : Prop where
  own : ∀ {pc id}, id ∈ g.listedAt pc → id < g.size ∧ (g.block id).pc = pc
  nonempty : ∀ pc, g.index.get? pc ≠ some []
  once : g.indexed.Nodup
  mem_iff : ∀ {id}, id ∈ g.indexed ↔ g.isIndexed id = true
  ordered : g.indexed.Pairwise g.Precedes

/-- Lists that ascend, at their own addresses, make up an ordered index. -/
theorem Assembled.indexExact (h : Assembled g) : IndexExact g := by
  have hfiled := h.stocked.filed
  have hordered := hfiled.pairwise_indexed h.ascending
  refine ⟨fun hid => ⟨hfiled.lt_size hid, hfiled.pc_eq hid⟩, hfiled.nonempty,
    hordered.imp fun {a b} hab heq => ?_, h.isIndexed_iff.symm, hordered⟩
  rw [heq] at hab
  exact Precedes.irrefl g b hab

/-! ## Taking a block out -/

/-- What the index says of all blocks but one is what it said before, the arena stays, and the
answer tells whether the block was listed. -/
structure TakenOut (g : Graph) (id : BlockId) (result : Graph × Bool) : Prop where
  answer : result.2 = g.isIndexed id
  blocks : result.1.blocks = g.blocks
  digits : result.1.digits = g.digits
  listed : ∀ pc, result.1.listedAt pc = (g.listedAt pc).filter (· ≠ id)

/-- A list becomes shorter exactly when it has what is taken out. -/
theorem snd_takeOut (g : Graph) (id : BlockId) : (g.takeOut id).2 = g.isIndexed id := by
  unfold takeOut isIndexed
  dsimp only
  rw [listedAt_unindex, if_pos rfl]
  generalize g.listedAt (g.block id).pc = ids
  rw [Bool.eq_iff_iff, bne_iff_ne, ne_eq, List.length_filter_eq_length_iff, List.contains_iff_mem]
  constructor
  · intro hshort
    obtain ⟨other, hother, heq⟩ : ∃ other ∈ ids, other = id := by simpa using hshort
    exact heq ▸ hother
  · intro hid hkept
    simpa using hkept id hid

/-- A block is taken out, and nothing else is. -/
theorem Filed.takenOut (h : Filed g) (id : BlockId) : TakenOut g id (g.takeOut id) where
  answer := snd_takeOut g id
  blocks := blocks_unindex g id
  digits := digits_unindex g id
  listed := h.listedAt_unindex id

/-! ## Giving an instruction its block -/

/-- The block is the first that is listed at an instruction's address with its opcode. -/
def IsFirst (g : Graph) (inst : Instruction) (id : BlockId) : Prop :=
  ∃ before after, g.listedAt inst.pc = before ++ id :: after ∧
    (g.block id).opcode = inst.opcode ∧ ∀ x ∈ before, (g.block x).opcode ≠ inst.opcode

/-- One block of the instruction was created and is listed last at its address; besides, blocks at
that address were numbered by their places, if there are several. -/
structure Created (g : Graph) (inst : Instruction) (result : Graph × BlockId) : Prop where
  id : result.2 = g.size
  size : result.1.size = g.size + 1
  digits : result.1.digits = g.digits
  listed : ∀ pc, result.1.listedAt pc =
    if pc = inst.pc then g.listedAt pc ++ [g.size] else g.listedAt pc
  block : ∀ x, result.1.block x =
    let old := if x = g.size then .ofInstruction inst else g.block x
    let siblings := g.listedAt inst.pc ++ [g.size]
    if x ∈ siblings then { old with ordinal := ordinalIn siblings x } else old

/-- An instruction has the first listed block of its address and opcode, or else a new one. -/
inductive Placed (g : Graph) (inst : Instruction) : Graph × BlockId → Prop
  | found {id : BlockId} (h : g.IsFirst inst id) : Placed g inst (g, id)
  | created {result : Graph × BlockId}
      (hnew : ∀ x ∈ g.listedAt inst.pc, (g.block x).opcode ≠ inst.opcode)
      (h : g.Created inst result) : Placed g inst result

/-- Look-up finds the first block of the list that fits. -/
theorem find?_eq_some_iff_isFirst {inst : Instruction} :
    g.find? inst = some id ↔ g.IsFirst inst id := by
  unfold find? IsFirst
  rw [List.find?_eq_some_iff_append]
  simp only [decide_eq_true_eq, Bool.not_eq_true', decide_eq_false_iff_not]
  constructor
  · rintro ⟨hopcode, before, after, hlist, hbefore⟩
    exact ⟨before, after, hlist, hopcode, hbefore⟩
  · rintro ⟨before, after, hlist, hopcode, hbefore⟩
    exact ⟨hopcode, before, after, hlist, hbefore⟩

@[simp] theorem digits_enter (g : Graph) (b : Block) : (g.enter b).digits = g.digits := by
  unfold enter
  simp only
  split
  · exact List.foldlRecOn (motive := fun g' : Graph => g'.digits = g.digits) _ _ rfl
      fun _ h _ _ => h
  · rfl

/-- A new block is listed last, and its address is numbered anew. -/
theorem Filed.created (h : Filed g) (inst : Instruction) :
    Created g inst (g.enter (.ofInstruction inst), g.size) := by
  have hlisted : ∀ pc, (g.enter (.ofInstruction inst)).listedAt pc =
      if pc = inst.pc then g.listedAt pc ++ [g.size] else g.listedAt pc := fun pc => by
    rw [listedAt_congr (index_enter ..), listedAt_insert]
    rfl
  refine ⟨rfl, size_enter .., digits_enter .., hlisted, fun x => ?_⟩
  have hpc : (Block.ofInstruction inst).pc = inst.pc := rfl
  have hblock := h.block_enter (b := .ofInstruction inst) rfl x
  rw [block_insert, hlisted, if_pos hpc, hpc] at hblock
  exact hblock

/-- Finding or creating, by whether look-up finds a block. -/
theorem Filed.placed (h : Filed g) (inst : Instruction) : Placed g inst (g.place inst) := by
  cases hfind : g.find? inst with
  | none =>
    rw [place_of_find?_none hfind]
    refine .created (fun x hx => ?_) (h.created inst)
    simpa using List.find?_eq_none.1 hfind x hx
  | some id =>
    rw [place_of_find?_some hfind]
    exact .found (find?_eq_some_iff_isFirst.1 hfind)

/-! ## All together -/

/-- **The address index is exact**, whatever operations made the graph: it lists blocks under their
own addresses, each once and by address, without empty lists. Taking a block out tells whether it
was listed and takes nothing else out; an instruction gets the first listed block of its address
and opcode, or else one new block, and only the blocks at its address are numbered anew. -/
theorem address_index_exact (h : Assembled g) :
    IndexExact g ∧ (∀ id, TakenOut g id (g.takeOut id)) ∧
      ∀ inst, Placed g inst (g.place inst) :=
  ⟨h.indexExact, h.stocked.filed.takenOut, h.stocked.filed.placed⟩

/-- Three blocks at one address, the first of them taken out, the second joined with a block at a
lower address; the index lists that block and the last sibling. The joined block's instruction gets
a new block, and the address has two siblings again. -/
theorem address_index_exact_siblings :
    let first : Instruction := { pc := 0x100, opcode := [0x00] }
    let second : Instruction := { pc := 0x100, opcode := [0x01] }
    let third : Instruction := { pc := 0x100, opcode := [0x02] }
    let below : Instruction := { pc := 0xFF, opcode := [0x00] }
    let placed := ((((Graph.new 4).place first).1.place second).1.place third).1.place below
    let g := (placed.1.unindex 0).absorb 3 1
    Assembled g ∧ IndexExact g ∧ TakenOut g 1 (g.takeOut 1) ∧ Placed g second (g.place second) ∧
      g.indexed = [3, 2] ∧ (g.takeOut 1).2 = false ∧ (g.takeOut 2).2 = true ∧
      (g.place third).2 = 2 ∧ (g.place second).2 = 4 ∧
      (g.place second).1.indexed = [3, 2, 4] ∧ (g.place second).1.name 4 = "loc_0100_1" := by
  intro first second third below placed g
  have hg : Assembled g :=
    (((((((Assembled.new 4).place first).place second).place third).place below).unindex 0).absorb
      3 1)
  obtain ⟨hexact, htaken, hplaced⟩ := address_index_exact hg
  exact ⟨hg, hexact, htaken 1, hplaced second, by decide +kernel⟩

end TraceFlow.Graph
