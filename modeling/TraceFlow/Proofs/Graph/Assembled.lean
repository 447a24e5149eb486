/-
TraceFlow.Proofs.Graph.Assembled — the address index of the graphs that
operations make.

`Assembled` is the empty graph after any sequence of operations. It asks
less than `Built` does of edges and more of blocks: new blocks come with
any edges, and edges join any blocks, in the graph or not, since the index
does not look at edges; but every new block holds an instruction, since an
empty one has no address of its own to be listed at.

`Stocked` is what every operation keeps: all blocks hold instructions, and
the index lists blocks at their own addresses (`Filed`). Nearly all
operations leave the index alone and all addresses too, and
`Stocked.of_pc` is the one lemma for those. The case that needs a thought
is a join, in which a block takes over the instructions of another: its
own stay in front, so it keeps its address.

`Assembled.stocked` is the induction over the sequence, one case for each
operation. Leading calls to markers and joining straight lines are not
among the constructors; a join of many is a sequence of the one there
(`Assembled.mergeStraightLines`). `Assembled.isIndexed_iff` is the use of
it all: the two ways to ask the index about a block, by its own address
and by going through the lists, agree.
-/
import TraceFlow.Proofs.Graph.Absorb
import TraceFlow.Proofs.Graph.Passes

namespace TraceFlow.Graph

variable {g g' : Graph} {b : Block} {id x : BlockId}

/-! ## The operations -/

/-- The graphs that operations make out of the empty one. New blocks hold instructions, and come
with any edges; edges join any blocks; whatever else a block holds may be changed, as long as it
keeps its address. -/
inductive Assembled : Graph → Prop
  | new (digits : Nat) : Assembled (Graph.new digits)
  | alloc {g : Graph} (h : Assembled g) {b : Block} (hb : b.instructions ≠ #[]) :
      Assembled (g.alloc b).1
  | insert {g : Graph} (h : Assembled g) {b : Block} (hb : b.instructions ≠ #[]) :
      Assembled (g.insert b).1
  | place {g : Graph} (h : Assembled g) (inst : Instruction) : Assembled (g.place inst).1
  | link {g : Graph} (h : Assembled g) (a b : BlockId) (kind : Option LinkKind) (count : Nat) :
      Assembled (g.link a b kind count)
  | unlinkOnce {g : Graph} (h : Assembled g) (a b : BlockId) : Assembled (g.unlinkOnce a b)
  | unlink {g : Graph} (h : Assembled g) (a b : BlockId) : Assembled (g.unlink a b)
  | unindex {g : Graph} (h : Assembled g) (id : BlockId) : Assembled (g.unindex id)
  | absorb {g : Graph} (h : Assembled g) (into other : BlockId) : Assembled (g.absorb into other)
  | retouch {g : Graph} (h : Assembled g) (id : BlockId) {f : Block → Block}
      (hf : ∀ b, b.instructions ≠ #[] → (f b).instructions ≠ #[] ∧ (f b).pc = b.pc) :
      Assembled (g.modify id f)

/-- Joining straight lines is a sequence of operations. -/
theorem Assembled.mergeStraightLines (h : Assembled g) (p : Profile) :
    Assembled (g.mergeStraightLines p).graph :=
  mergeStraightLines_induct p h fun _ id next _ h => h.absorb id next

/-! ## What operations keep -/

/-- The index lists blocks at their own addresses, and every block holds instructions. -/
structure Stocked (g : Graph) : Prop where
  filed : Filed g
  instructions : ∀ {id}, id < g.size → (g.block id).instructions ≠ #[]

namespace Stocked

variable (h : Stocked g)

include h

/-- Operations that leave the index alone need to keep addresses only. -/
theorem of_pc (hindex : g'.index = g.index) (hsize : g'.size = g.size)
    (hkept : ∀ id, id < g.size →
      (g'.block id).instructions ≠ #[] ∧ (g'.block id).pc = (g.block id).pc) : Stocked g' :=
  ⟨h.filed.of_index_eq hindex (Nat.le_of_eq hsize.symm) fun id hid => (hkept id hid).2,
    fun hid => (hkept _ (hsize ▸ hid)).1⟩

/-- Operations on edges leave the index alone, and all else that blocks hold. -/
theorem of_body (hindex : g'.index = g.index) (hsize : g'.size = g.size)
    (hbody : ∀ id, (g'.block id).body = (g.block id).body) : Stocked g' := by
  refine h.of_pc hindex hsize fun id hid => ⟨?_, (congrArg Block.pc (hbody id) :)⟩
  have hsame : (g'.block id).instructions = (g.block id).instructions :=
    (congrArg Block.instructions (hbody id) :)
  exact hsame ▸ h.instructions hid

/-- A change that keeps addresses keeps the lists right. -/
theorem modify {f : Block → Block}
    (hf : ∀ b, b.instructions ≠ #[] → (f b).instructions ≠ #[] ∧ (f b).pc = b.pc) :
    Stocked (g.modify id f) := by
  refine h.of_pc rfl (size_modify ..) fun x hx => ?_
  rw [block_modify]
  split
  · exact hf _ (h.instructions hx)
  · exact ⟨h.instructions hx, rfl⟩

/-- A new block that is not listed does so if it holds an instruction. -/
theorem alloc (hb : b.instructions ≠ #[]) : Stocked (g.alloc b).1 := by
  have hold : ∀ {id}, id < g.size → (g.alloc b).1.block id = g.block id := by
    intro id hid
    rw [block_alloc, if_neg (Nat.ne_of_lt hid)]
  refine ⟨h.filed.of_index_eq rfl (by simp) fun id hid => by rw [hold hid], fun {id} hid => ?_⟩
  rw [size_alloc] at hid
  rcases Nat.lt_succ_iff_lt_or_eq.1 hid with hlt | rfl
  · rw [hold hlt]
    exact h.instructions hlt
  · rw [block_alloc, if_pos rfl]
    exact hb

/-- One that is listed goes to its own address. -/
theorem insert (hb : b.instructions ≠ #[]) : Stocked (g.insert b).1 := by
  refine ⟨h.filed.insert b, fun {id} hid => ?_⟩
  rw [block_congr (blocks_insert g b)]
  exact (h.alloc hb).instructions hid

/-- Numbering changes ordinals only. -/
theorem number (ids : List BlockId) : Stocked (g.number ids) :=
  List.foldlRecOn (motive := Stocked) _ _ h fun _ h _ _ => h.modify fun _ hb => ⟨hb, rfl⟩

theorem place (inst : Instruction) : Stocked (g.place inst).1 := by
  have hentered : Stocked (g.insert (.ofInstruction inst)).1 :=
    h.insert (Array.ne_empty_of_size_pos Nat.zero_lt_one)
  cases hfind : g.find? inst with
  | none =>
    rw [place_of_find?_none hfind]
    unfold enter
    simp only
    split
    · exact hentered.number _
    · exact hentered
  | some id =>
    rw [place_of_find?_some hfind]
    exact h

/-- A list may lose a block. -/
theorem unindex (id : BlockId) : Stocked (g.unindex id) := by
  refine ⟨h.filed.unindex id, fun {x} hx => ?_⟩
  rw [(SameEdges.unindex g id).size] at hx
  rw [block_congr (blocks_unindex g id)]
  exact h.instructions hx

/-- In a join both blocks keep their addresses. -/
theorem absorb (into other : BlockId) : Stocked (g.absorb into other) := by
  refine ⟨(h.filed.joined h.instructions into other).unindex other, fun {x} hx => ?_⟩
  rw [size_absorb] at hx
  obtain ⟨tail, htail⟩ := instructions_absorb g into other x
  rw [htail]
  exact fun hempty => h.instructions hx (Array.append_eq_empty_iff.1 hempty).1

end Stocked

namespace Assembled

/-- The induction over the sequence of operations. -/
theorem stocked (h : Assembled g) : Stocked g := by
  induction h with
  | new digits =>
    exact ⟨(Catalogued.new digits).filed, fun hid => absurd hid (Nat.not_lt_zero _)⟩
  | alloc _ hb ih => exact ih.alloc hb
  | insert _ hb ih => exact ih.insert hb
  | place _ inst ih => exact ih.place inst
  | link _ a b kind count ih => exact ih.of_body index_link (size_link ..) fun _ => body_link
  | unlinkOnce _ a b ih =>
    exact ih.of_body index_unlinkOnce (size_unlinkOnce ..) fun _ => body_unlinkOnce
  | unlink _ a b ih => exact ih.of_body index_unlink (size_unlink ..) fun _ => body_unlink
  | unindex _ id ih => exact ih.unindex id
  | absorb _ into other ih => exact ih.absorb into other
  | retouch _ id hf ih => exact ih.modify hf

/-- A block is among those that the index lists when the list of its own address has it. -/
theorem isIndexed_iff (h : Assembled g) : g.isIndexed id = true ↔ id ∈ g.indexed := by
  rw [isIndexed, List.contains_iff_mem, mem_indexed_iff]
  refine ⟨fun hid => ⟨_, hid⟩, fun ⟨pc, hid⟩ => ?_⟩
  rw [h.stocked.filed.pc_eq hid]
  exact hid

end Assembled

end TraceFlow.Graph
