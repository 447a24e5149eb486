/-
TraceFlow.Proofs.Recorder.Finish — the raw graph of a trace.

Closing a trace adds the block after it and one edge, from the block
executed last. `graph_finish` says so as one equation; the lemmas after it
read off what each view of the graph shows: `body_finish` the blocks,
`edge?_finish` the edges, `find?_finish` the index.

`Raw` is what the graph of a finished trace satisfies, whatever the trace,
and the form in which the stages behind the recorder take it over:

* all blocks are catalogued, and every edge is at both of its ends;
* no block is empty, none was absorbed, none belongs to a function yet;
* the block before the trace may not be merged with its neighbours;
* every other block begins a function, or has an edge from an older one.

The last is the only part that looks back on how the trace was followed.
It is why no block is lost later: going back along older blocks ends, and
it ends at the block before the trace or at the entry of a function.
`Sound.raw_finish` derives `Raw` from the invariant of the recorder; the
new block is entered from the cursor, and an old one keeps what it had.
-/
import TraceFlow.Proofs.Recorder.Sound

namespace TraceFlow

/-- What holds of the graph of a finished trace. -/
structure Graph.Raw (start : BlockId) (g : Graph) : Prop where
  catalogued : Catalogued g
  mirrored : Mirrored g
  start_lt : start < g.size
  start_apart : (g.block start).isMergeable = false
  start_kind : (g.block start).kind = .code
  instructions : ∀ {id}, id < g.size → (g.block id).instructions ≠ #[]
  unmerged : ∀ {id}, id < g.size → (g.block id).mergedInto = none
  within : ∀ {id}, id < g.size → (g.block id).within = ∅
  rooted : ∀ {id}, id < g.size → id = start ∨ (g.block id).kind.isFunctionEntry = true ∨
    ∃ a, a < id ∧ 0 < g.traversals a id

namespace Recorder.Sound

open TraceFlow.Graph

variable {s : Setup} {r : Recorder} {id : BlockId}

/-- Every block was made before the trace or for an instruction of it. -/
theorem made (h : Sound s r) (hid : id < r.graph.size) :
    (r.graph.block id).instructions ≠ #[] ∧ (r.graph.block id).mergedInto = none ∧
      (r.graph.block id).within = ∅ := by
  by_cases hstart : id = r.start
  · subst hstart
    refine ⟨?_, (congrArg Block.mergedInto h.start_fixed :),
      (congrArg Block.within h.start_fixed :)⟩
    have hinstructions := congrArg Block.instructions h.start_fixed
    intro hempty
    simp [Block.fixed, Block.content, Block.body, Block.marker, hempty] at hinstructions
  · obtain ⟨inst, -, hfixed⟩ := h.code hid hstart
    refine ⟨?_, (congrArg Block.mergedInto hfixed :), (congrArg Block.within hfixed :)⟩
    have hinstructions := congrArg Block.instructions hfixed
    intro hempty
    simp [Block.fixed, Block.content, Block.body, Block.ofInstruction, hempty] at hinstructions

/-- The block before the trace stays by itself. -/
theorem start_apart (h : Sound s r) : (r.graph.block r.start).isMergeable = false := by
  have hsynthetic : (r.graph.block r.start).synthetic = some ⟨"BEGIN", false⟩ :=
    congrArg Block.synthetic h.start_fixed
  rw [Block.isMergeable, hsynthetic]
  rfl

/-- Before the trace is closed, no block lies behind the one before the trace. -/
theorem pc_le (h : Sound s r) (hid : id < r.graph.size) :
    (r.graph.block id).pc ≤ s.profile.beginAddress := by
  by_cases hstart : id = r.start
  · subst hstart
    exact Nat.le_of_eq h.pc_start
  · obtain ⟨inst, hlt, hfixed⟩ := h.code hid hstart
    have hpc : (r.graph.block id).pc = inst.pc := (congrArg Block.pc hfixed :)
    exact hpc ▸ Nat.le_of_lt hlt

def endMarker (p : Profile) : Block := .marker p.endAddress "END" false

theorem pc_endMarker (p : Profile) : (endMarker p).pc = p.beginAddress + 1 := rfl

/-- A closed trace has one more block and one more edge. -/
theorem graph_finish (p : Profile) (r : Recorder) :
    (r.finish p).graph =
      (r.graph.insert (endMarker p)).1.link r.cursor r.graph.size none 1 := rfl

theorem size_finish (p : Profile) (r : Recorder) :
    (r.finish p).graph.size = r.graph.size + 1 := by
  rw [graph_finish, size_link, size_insert]

/-- Closing a trace adds a block and touches nothing else of the blocks but their edges. -/
theorem body_finish (p : Profile) (r : Recorder) (id : BlockId) :
    ((r.finish p).graph.block id).body =
      (if id = r.graph.size then endMarker p else r.graph.block id).body := by
  rw [graph_finish, body_link, block_insert]

theorem pc_finish (p : Profile) (r : Recorder) (id : BlockId) :
    ((r.finish p).graph.block id).pc =
      if id = r.graph.size then p.beginAddress + 1 else (r.graph.block id).pc := by
  rw [Block.pc_of_fixed (Block.fixed_of_body (body_finish p r id))]
  split
  · exact pc_endMarker p
  · rfl

/-- The block executed last is still there. -/
theorem cursor_lt_insert (h : Sound s r) (b : Block) : r.cursor < (r.graph.insert b).1.size := by
  rw [size_insert]
  exact Nat.lt_succ_of_lt h.cursor_lt

/-- Closing a trace draws one edge, from the block executed last to the new one. -/
theorem edge?_finish (h : Sound s r) (x y : BlockId) :
    (r.finish s.profile).graph.edge? x y =
      if x = r.cursor ∧ y = r.graph.size then some ⟨.normal, 1⟩ else r.graph.edge? x y := by
  rw [graph_finish, edge?_link (h.cursor_lt_insert _) Nat.zero_lt_one, edge?_insert rfl,
    edge?_insert rfl, h.mirrored.edge?_eq_none (a := r.cursor) (Nat.le_refl _)]
  rfl

/-- Closing a trace takes no traversal away. -/
theorem traversals_le_finish (h : Sound s r) (x y : BlockId) :
    r.graph.traversals x y ≤ (r.finish s.profile).graph.traversals x y := by
  have hinserted : r.graph.traversals x y =
      (r.graph.insert (endMarker s.profile)).1.traversals x y := by
    rw [traversals, traversals, edge?_insert rfl]
  rw [hinserted, graph_finish]
  exact (h.mirrored.insert _ rfl rfl).traversals_le_link (h.cursor_lt_insert _) none Nat.zero_lt_one

/-- The graph of a finished trace is raw, in each of the parts above. -/
theorem raw_finish (h : Sound s r) : Raw r.start (r.finish s.profile).graph := by
  have hgraph := graph_finish s.profile r
  have hcursor := h.cursor_lt_insert (endMarker s.profile)
  have hnew : r.graph.size < (r.graph.insert (endMarker s.profile)).1.size := by
    rw [size_insert]
    exact Nat.lt_succ_self _
  have hsize := size_finish s.profile r
  have hbody := body_finish s.profile r
  have hold : ∀ {id}, id < r.graph.size →
      ((r.finish s.profile).graph.block id).body = (r.graph.block id).body := by
    intro id hid
    rw [hbody, if_neg (Nat.ne_of_lt hid)]
  have hend : ((r.finish s.profile).graph.block r.graph.size).body =
      (endMarker s.profile).body := by
    rw [hbody, if_pos rfl]
  have hcases : ∀ {id}, id < (r.finish s.profile).graph.size →
      id < r.graph.size ∨ id = r.graph.size := by
    intro id hid
    rw [hsize] at hid
    exact Nat.lt_succ_iff_lt_or_eq.1 hid
  have htraversals := h.traversals_le_finish
  generalize (r.finish s.profile).graph = g at *
  refine ⟨?_, ?_, ?_, ?_, ?_, fun {id} hid => ?_, fun {id} hid => ?_, fun {id} hid => ?_,
    fun {id} hid => ?_⟩
  · rw [hgraph]
    refine (h.catalogued.insert (b := endMarker s.profile) rfl fun id hid => ?_).congr
      index_link (size_link ..) fun id => content_link
    rw [pc_endMarker]
    exact Nat.ne_of_lt (Nat.lt_succ_of_le (h.pc_le hid))
  · rw [hgraph]
    exact (h.mirrored.insert (endMarker s.profile) rfl rfl).link hcursor hnew none 1
  · rw [hsize]
    exact Nat.lt_succ_of_lt h.start_lt
  · have hsynthetic : (g.block r.start).synthetic = (r.graph.block r.start).synthetic :=
      (congrArg Block.synthetic (hold h.start_lt) :)
    rw [Block.isMergeable, hsynthetic]
    exact h.start_apart
  · exact (congrArg Block.kind (hold h.start_lt)).trans h.start_kind
  · rcases hcases hid with hlt | rfl
    · have hinstructions := congrArg Block.instructions (hold hlt)
      exact fun hempty => (h.made hlt).1 (hinstructions.symm.trans hempty)
    · have hinstructions := congrArg Block.instructions hend
      exact fun hempty => by
        simp [Block.body, endMarker, Block.marker, hempty] at hinstructions
  · rcases hcases hid with hlt | rfl
    · exact (congrArg Block.mergedInto (hold hlt)).trans (h.made hlt).2.1
    · exact (congrArg Block.mergedInto hend :)
  · rcases hcases hid with hlt | rfl
    · exact (congrArg Block.within (hold hlt)).trans (h.made hlt).2.2
    · exact (congrArg Block.within hend :)
  · rcases hcases hid with hlt | rfl
    · rcases h.rooted hlt with heq | hkind | ⟨a, ha, hpos⟩
      · exact .inl heq
      · have hsame := congrArg (fun b : Block => b.kind.isFunctionEntry) (hold hlt)
        exact .inr (.inl (hsame.trans hkind))
      · exact .inr (.inr ⟨a, ha, Nat.lt_of_lt_of_le hpos (htraversals a id)⟩)
    · refine .inr (.inr ⟨r.cursor, h.cursor_lt, ?_⟩)
      rw [hgraph, traversals_link hcursor Nat.zero_lt_one, if_pos ⟨rfl, rfl⟩]
      exact saturate_pos (Nat.succ_pos _)

/-- Closing a trace takes no block away. -/
theorem find?_finish (h : Sound s r) {inst : Instruction} (hid : r.graph.find? inst = some id) :
    (r.finish s.profile).graph.find? inst = some id := by
  obtain ⟨hlt, hpc, hopcode⟩ := h.catalogued.find?_eq_some_iff.1 hid
  have hbody := body_finish s.profile r id
  rw [if_neg (Nat.ne_of_lt hlt)] at hbody
  rw [h.raw_finish.catalogued.find?_eq_some_iff, size_finish]
  generalize (r.finish s.profile).graph = g at hbody ⊢
  exact ⟨Nat.lt_succ_of_lt hlt, (congrArg Block.pc hbody).trans hpc,
    (congrArg Block.opcode hbody).trans hopcode⟩

/-- Closing a trace draws no edge of a return that missed. -/
theorem noMiss_finish (h : Sound s r) (hold : NoMiss r.graph) :
    NoMiss (r.finish s.profile).graph := by
  have hinserted : NoMiss (r.graph.insert (endMarker s.profile)).1 := by
    intro a b e he
    rw [edge?_insert rfl] at he
    exact hold a b e he
  rw [graph_finish]
  exact hinserted.link (h.cursor_lt_insert _) (by simp) Nat.zero_lt_one

end Recorder.Sound

end TraceFlow
