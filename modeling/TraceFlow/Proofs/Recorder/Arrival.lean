/-
TraceFlow.Proofs.Recorder.Arrival — a step from one instruction to the
next, told by the two instructions.

The recorder judges a step by blocks: the last opcode of the block at its
cursor, and the address of the block that the new instruction has. Claims
about traces speak of instructions instead, so this module goes from one
to the other in two moves.

* `arrival s r b` is the judgement of the step to `b`; `record_eq_move`
  says by `rfl` that a record is that judgement, carried out.
  `tally_record` and the `graph_record_…` lemmas give the counters and the
  graph after it by the settlement of the judgement, one lemma for each:
  `graph_record_enters`, `graph_record_matched`, `graph_record_missed`,
  `graph_record_follow`.
* `At s r a` says that a sound recorder executed `a` last. Then
  `At.arrival_eq` writes the whole judgement out in the address and opcode
  of `a`, the backtrace and a pending interrupt: nothing that happened
  before counts in any other way.

A recorder that has left the block before the trace stands at some
instruction (`Sound.at_of_ne_start`), and the next record moves it to its
own (`Sound.at_record`), so runs are taken step by step through `At`. What
keeps it true over a longer run is `Sound.find?_record`: no step takes the
block of an instruction away.
-/
import TraceFlow.Proofs.Recorder.Sound

namespace TraceFlow

namespace Graph

variable {g : Graph}

/-- The address and the opcode of an instruction say which block is its own. -/
theorem find?_congr {i j : Instruction} (hpc : i.pc = j.pc) (hopcode : i.opcode = j.opcode) :
    g.find? i = g.find? j := by
  unfold find?
  rw [hpc, hopcode]

end Graph

namespace Recorder

open TraceFlow.Graph

variable {s : Setup} {r : Recorder} {a b i : Instruction} {id : BlockId}

/-- Labels play no part in finding a block. -/
theorem find?_labelled (g : Graph) (s : Setup) (i : Instruction) :
    g.find? (s.labelled i) = g.find? i :=
  find?_congr pc_labelled opcode_labelled

namespace Sound

/-- Before straight lines are joined every block holds one instruction. -/
theorem exists_instruction (h : Sound s r) (hid : id < r.graph.size) :
    ∃ i, (r.graph.block id).instructions = #[i] := by
  by_cases hstart : id = r.start
  · subst hstart
    exact ⟨_, Block.instructions_of_fixed h.start_fixed⟩
  · obtain ⟨i, -, hfixed⟩ := h.code hid hstart
    exact ⟨i, Block.instructions_of_fixed hfixed⟩

/-- So the first opcode of a block is its last. -/
theorem lastOpcode_eq (h : Sound s r) (hid : id < r.graph.size) :
    (r.graph.block id).lastOpcode = (r.graph.block id).opcode := by
  obtain ⟨i, hi⟩ := h.exists_instruction hid
  simp [Block.lastOpcode, Block.opcode, hi]

/-- A step leaves each instruction the block that it had. -/
theorem find?_record (h : Sound s r) (hb : b.pc < s.profile.beginAddress) {x : BlockId}
    (hx : r.graph.find? i = some x) : (r.record s b).graph.find? i = some x := by
  obtain ⟨hlt, hpc, hopcode⟩ := h.catalogued.find?_eq_some_iff.1 hx
  have hsame := h.fixed_record b hlt
  rw [(h.record hb).catalogued.find?_eq_some_iff]
  refine ⟨Nat.lt_of_lt_of_le hlt (h.size_le_record b), ?_, ?_⟩
  · exact (Block.pc_of_fixed hsame).trans hpc
  · exact (Block.opcode_of_fixed hsame).trans hopcode

/-- The block of an instruction shows its opcode. -/
theorem opcode_target (h : Sound s r) (b : Instruction) :
    ((r.graph.place (s.labelled b)).1.block (r.graph.place (s.labelled b)).2).opcode =
      b.opcode := by
  have hfound := h.catalogued.find?_place (s.labelled b)
  rw [((h.catalogued.place _).find?_eq_some_iff.1 hfound).2.2, opcode_labelled]

end Sound

/-! ## The judgement of a step -/

/-- How the step to an instruction is judged. -/
def arrival (s : Setup) (r : Recorder) (b : Instruction) : Arrival :=
  arrive s.profile (place s r b).1 (r.graph.place (s.labelled b)).2 b.pc

/-- A record is judged, and then carried out. -/
theorem record_eq_move (s : Setup) (r : Recorder) (b : Instruction) :
    r.record s b = move s.profile (place s r b).1 (arrival s r b) := rfl

/-- What a step counts. -/
theorem tally_record (s : Setup) (r : Recorder) (b : Instruction) :
    (r.record s b).tally = { r.tally with
      instructions := r.tally.instructions + 1
      returns := r.tally.returns + if (arrival s r b).settled = .none then 0 else 1
      returnMisses := r.tally.returnMisses + if (arrival s r b).settled = .missed then 1 else 0
      calls := r.tally.calls +
        if (arrival s r b).enters = false ∧ (arrival s r b).settled = .none ∧
          s.profile.transfer (arrival s r b).opcode (arrival s r b).offset = .call then 1 else 0
      interrupts := r.tally.interrupts + if (arrival s r b).enters then 1 else 0 } := by
  rw [record_eq_move, tally_move]
  rfl

/-- A step that enters a handler only marks the block of its instruction. -/
theorem graph_record_enters (henters : (arrival s r b).enters = true) :
    (r.record s b).graph = (r.graph.place (s.labelled b)).1.modify
      (r.graph.place (s.labelled b)).2 fun block => { block with kind := .handler } := by
  rw [record_eq_move]
  unfold move
  simp only [henters, if_true, enterHandler, graph_settleReturn]
  rfl

/-- So it draws no edge. -/
theorem sameEdges_record (henters : (arrival s r b).enters = true) :
    SameEdges (r.graph.place (s.labelled b)).1 (r.record s b).graph :=
  graph_record_enters henters ▸ sameEdges_handler

namespace Sound

/-- A step that misses no return draws no edge of one. -/
theorem noMiss_record (h : Sound s r) (b : Instruction)
    (hsettled : (arrival s r b).settled ≠ .missed) (hold : NoMiss r.graph) :
    NoMiss (r.record s b).graph := by
  have hle := h.size_le_place (s.labelled b)
  refine (drawn_record s r b).noMiss (Nat.lt_of_lt_of_le h.cursor_lt hle)
    (Nat.lt_of_lt_of_le (h.origin_lt _ _ _) hle) hsettled ?_
  intro x y e he
  exact hold x y e ((edge?_place ..).symm.trans he)

/-- A step that ends a call and enters no handler leads on from the call. -/
theorem graph_record_matched {f : Frame} (hsettled : (arrival s r b).settled = .matched f)
    (henters : (arrival s r b).enters = false) :
    (r.record s b).graph = (r.graph.place (s.labelled b)).1.link f.site
      (r.graph.place (s.labelled b)).2 none 1 := by
  rw [record_eq_move]
  unfold move draw
  simp only [henters, hsettled, Bool.false_eq_true, if_false, graph_settleReturn]
  rfl

/-- A return that misses leads on from where it stands, marked as a miss. -/
theorem graph_record_missed (hsettled : (arrival s r b).settled = .missed)
    (henters : (arrival s r b).enters = false) :
    (r.record s b).graph = (r.graph.place (s.labelled b)).1.link r.cursor
      (r.graph.place (s.labelled b)).2 (some .returnMiss) 1 := by
  rw [record_eq_move]
  unfold move draw
  simp only [henters, hsettled, Bool.false_eq_true, if_false, graph_settleReturn,
    cursor_settleReturn]
  rfl

/-- A step that is no return and enters no handler is classified. -/
theorem graph_record_follow (hsettled : (arrival s r b).settled = .none)
    (henters : (arrival s r b).enters = false) :
    (r.record s b).graph = (follow s.profile (place s r b).1 (arrival s r b)).graph := by
  rw [record_eq_move]
  unfold move draw settleReturn
  simp only [henters, hsettled, Bool.false_eq_true, if_false]

/-- The block that a step creates does not change how a return is settled. -/
theorem settle_place (h : Sound s r) (b : Instruction) (pc : Address) :
    settle s.profile (r.graph.place (s.labelled b)).1 pc r.backtrace =
      settle s.profile r.graph pc r.backtrace := by
  cases hbacktrace : r.backtrace with
  | nil => rfl
  | cons f rest =>
    have hsite := h.sites_lt f (hbacktrace ▸ List.mem_cons_self)
    have hpc := Block.pc_of_fixed (h.fixed_place (s.labelled b) hsite)
    have hbelongs : belongs s.profile (r.graph.place (s.labelled b)).1 pc f =
        belongs s.profile r.graph pc f := by
      unfold belongs
      rw [hpc]
    simp only [settle, hbelongs]

/-- The block before the trace has no opcode at all. -/
theorem lastOpcode_start (h : Sound s r) : (r.graph.block r.start).lastOpcode = [] := by
  rw [Block.lastOpcode_of_fixed h.start_fixed]
  rfl

/-- The first instruction of a trace ends no call, enters no handler and is not called. -/
theorem arrival_start (h : Sound s r) (hstart : r.cursor = r.start) (b : Instruction) :
    (arrival s r b).opcode = [] ∧ (arrival s r b).settled = .none ∧
      (arrival s r b).enters = false := by
  have hfixed := h.fixed_place (s.labelled b) h.start_lt
  have hlast := (Block.lastOpcode_of_fixed hfixed).trans h.lastOpcode_start
  have hreturns : ∀ offset, s.profile.returns [] offset = false := fun _ => rfl
  unfold arrival arrive
  simp [place, hstart, hlast, hreturns]

end Sound

/-! ## Where a recorder stands -/

/-- The recorder executed the instruction `a` last. -/
structure At (s : Setup) (r : Recorder) (a : Instruction) : Prop where
  sound : Sound s r
  in_range : a.pc < s.profile.beginAddress
  cursor : r.graph.find? a = some r.cursor

/-- After an instruction the recorder stands there. -/
theorem Sound.at_record (h : Sound s r) (hb : b.pc < s.profile.beginAddress) :
    At s (r.record s b) b := by
  have hdrawn := drawn_record s r b
  refine ⟨h.record hb, hb, ?_⟩
  rw [(h.record hb).catalogued.find?_eq_some_iff, cursor_record, size_record]
  refine ⟨h.target_lt b, ?_, ?_⟩
  · exact (Block.pc_of_fixed (hdrawn.fixed _)).trans (h.pc_target b)
  · exact (Block.opcode_of_fixed (hdrawn.fixed _)).trans (h.opcode_target b)

/-- A recorder that left the block before the trace executed an instruction last. -/
theorem Sound.at_of_ne_start (h : Sound s r) (hne : r.cursor ≠ r.start) : ∃ a, At s r a := by
  obtain ⟨a, ha, hfixed⟩ := h.code h.cursor_lt hne
  refine ⟨a, h, ha, ?_⟩
  rw [h.catalogued.find?_eq_some_iff]
  exact ⟨h.cursor_lt, Block.pc_of_fixed hfixed, Block.opcode_of_fixed hfixed⟩

/-- A recorder whose last block is of some class executed an instruction there. -/
theorem Sound.at_cursor (h : Sound s r) {k : OpcodeClass}
    (hclass : k.contains (r.graph.block r.cursor).lastOpcode = true) : ∃ a, At s r a := by
  refine h.at_of_ne_start fun heq => ?_
  rw [heq, h.lastOpcode_start] at hclass
  cases hclass

namespace At

/-- The cursor is at the address of the instruction executed last. -/
theorem pc_cursor (h : At s r a) : (r.graph.block r.cursor).pc = a.pc :=
  (h.sound.catalogued.find?_eq_some_iff.1 h.cursor).2.1

theorem lastOpcode_cursor (h : At s r a) : (r.graph.block r.cursor).lastOpcode = a.opcode := by
  obtain ⟨hlt, -, hopcode⟩ := h.sound.catalogued.find?_eq_some_iff.1 h.cursor
  rw [h.sound.lastOpcode_eq hlt, hopcode]

/-- A recorder that stands at an instruction has left the block before the trace. -/
theorem cursor_ne_start (h : At s r a) : r.cursor ≠ r.start := by
  intro heq
  have hpc := h.pc_cursor
  rw [heq, h.sound.pc_start] at hpc
  exact Nat.ne_of_lt h.in_range hpc.symm

/-- The step from `a` to `b` is judged by the address and the opcode of `a`, by the backtrace, and
by whether an interrupt was announced. -/
theorem arrival_eq (h : At s r a) (b : Instruction) :
    arrival s r b =
      { target := (r.graph.place (s.labelled b)).2
        pc := b.pc
        opcode := a.opcode
        offset := displacement a.pc b.pc
        settled :=
          if s.profile.returns a.opcode (displacement a.pc b.pc) then
            settle s.profile r.graph b.pc r.backtrace
          else .none
        enters :=
          s.profile.entersHandler r.interruptPending b.pc a.opcode (displacement a.pc b.pc) } := by
  have hfixed := h.sound.fixed_place (s.labelled b) h.sound.cursor_lt
  have hlast := (Block.lastOpcode_of_fixed hfixed).trans h.lastOpcode_cursor
  have haddress := (Block.pc_of_fixed hfixed).trans h.pc_cursor
  have hsettle := h.sound.settle_place b b.pc
  have hstart : (r.cursor != r.start) = true := bne_iff_ne.2 h.cursor_ne_start
  unfold arrival arrive
  simp only [place, hlast, haddress, hsettle, hstart, Bool.true_and]

end At

end Recorder

end TraceFlow
