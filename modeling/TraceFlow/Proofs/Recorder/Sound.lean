/-
TraceFlow.Proofs.Recorder.Sound — what holds in every state of a
recorder.

`Sound` is the invariant that the claims about traces rest on. Its parts:

* the graph is catalogued and mirrored;
* the block before the trace keeps its number, its content and its kind;
* every other block is that of one instruction within the address space;
* every block but the first is rooted: it begins a function, or an older
  block has an edge to it;
* the cursor and the sites of the backtrace are blocks of the graph;
* the recorder itself reports no unclaimed block.

`Reached.sound` is by induction over `Reached`: `Sound.new` for the state
before the trace, `Sound.feed` and `Sound.feedLine` for a step. The weight
lies in `Sound.record`, an instruction that is taken. It treats the step
as the two changes that it makes: the block of the instruction, through
the lemmas of `place`, and then one change of the graph, through
`drawn_record` and the lemmas of `Drawn`. What is left to say there is
that a block created by the step is rooted (`Drawn.entered`): either the
step made it a handler, or it drew an edge to it from an older block.

`Reached.edge?_start` is a second induction of the same form. It is stated
by itself and not as a part of `Sound`, because the equation that a step
preserves (`Sound.edge?_start_feed`) says more than that no edge is there.
-/
import TraceFlow.Proofs.Recorder.Steps
import TraceFlow.Recording

namespace TraceFlow.Recorder

open TraceFlow.Graph

variable {s : Setup} {r : Recorder} {inst : Instruction} {id : BlockId}

/-- What holds of the states that records and lines lead to. -/
structure Sound (s : Setup) (r : Recorder) : Prop where
  catalogued : Catalogued r.graph
  mirrored : Mirrored r.graph
  start_lt : r.start < r.graph.size
  start_fixed : (r.graph.block r.start).fixed =
    (Block.marker s.profile.beginAddress "BEGIN" false).fixed
  start_kind : (r.graph.block r.start).kind = .code
  code : ∀ {id}, id < r.graph.size → id ≠ r.start → ∃ inst : Instruction,
    inst.pc < s.profile.beginAddress ∧
      (r.graph.block id).fixed = (Block.ofInstruction inst).fixed
  rooted : ∀ {id}, id < r.graph.size → id = r.start ∨
    (r.graph.block id).kind.isFunctionEntry = true ∨ ∃ a, a < id ∧ 0 < r.graph.traversals a id
  cursor_lt : r.cursor < r.graph.size
  sites_lt : ∀ f ∈ r.backtrace, f.site < r.graph.size
  diagnostics : ∀ d ∈ r.diagnostics, d.isUnclaimed = false

namespace Sound

/-- The block before the trace lies past the address space. -/
theorem pc_start (h : Sound s r) : (r.graph.block r.start).pc = s.profile.beginAddress :=
  congrArg Block.pc h.start_fixed

/-! ## The first state -/

/-- The state before the first record is sound. -/
theorem new (s : Setup) : Sound s (.new s.profile) := by
  have hblock := block_insert (forProfile s.profile) (.marker s.profile.beginAddress "BEGIN" false)
  have hstart : ((Recorder.new s.profile).graph.block 0) =
      .marker s.profile.beginAddress "BEGIN" false := hblock 0
  refine ⟨?_, ?_, Nat.zero_lt_one, ?_, ?_, fun hid hne => ?_, fun hid => ?_, Nat.zero_lt_one,
    ?_, ?_⟩
  · exact (Catalogued.new _).insert rfl fun id hid => absurd hid (Nat.not_lt_zero _)
  · exact (Mirrored.new _).insert _ rfl rfl
  · exact congrArg Block.fixed hstart
  · exact congrArg Block.kind hstart
  · exact absurd (Nat.lt_one_iff.1 hid) hne
  · exact .inl (Nat.lt_one_iff.1 hid)
  · exact fun f hf => by cases hf
  · exact fun d hd => by cases hd

/-! ## One instruction -/

/-- The block of an instruction is a block of the graph at the instruction's address. -/
theorem target_lt (h : Sound s r) (inst : Instruction) :
    (r.graph.place (s.labelled inst)).2 < (r.graph.place (s.labelled inst)).1.size := by
  have hfound := h.catalogued.find?_place (s.labelled inst)
  exact ((h.catalogued.place _).find?_eq_some_iff.1 hfound).1

theorem size_le_place (h : Sound s r) (inst : Instruction) :
    r.graph.size ≤ (r.graph.place inst).1.size := by
  rcases h.catalogued.size_place inst with hsize | hsize
  · exact Nat.le_of_eq hsize.1.symm
  · rw [hsize.1]
    exact Nat.le_succ _

/-- Blocks that are there keep what is fixed when an instruction gets its block. -/
theorem fixed_place (h : Sound s r) (inst : Instruction) (hid : id < r.graph.size) :
    ((r.graph.place inst).1.block id).fixed = (r.graph.block id).fixed := by
  obtain ⟨ordinal, hblock⟩ := h.catalogued.block_place inst hid
  rw [hblock]
  rfl

theorem kind_place (h : Sound s r) (inst : Instruction) (hid : id < r.graph.size) :
    ((r.graph.place inst).1.block id).kind = (r.graph.block id).kind := by
  obtain ⟨ordinal, hblock⟩ := h.catalogued.block_place inst hid
  rw [hblock]

theorem pc_target (h : Sound s r) (inst : Instruction) :
    ((r.graph.place (s.labelled inst)).1.block (r.graph.place (s.labelled inst)).2).pc =
      inst.pc := by
  have hfound := h.catalogued.find?_place (s.labelled inst)
  rw [((h.catalogued.place _).find?_eq_some_iff.1 hfound).2.1, pc_labelled]

/-- No instruction within the address space has the block before the trace. -/
theorem target_ne_start (h : Sound s r) (hinst : inst.pc < s.profile.beginAddress) :
    (r.graph.place (s.labelled inst)).2 ≠ r.start := by
  intro heq
  have hpc := h.pc_target inst
  have hfixed := congrArg Block.pc (h.fixed_place (s.labelled inst) h.start_lt)
  rw [heq] at hpc
  exact Nat.ne_of_lt hinst (hpc.symm.trans (hfixed.trans h.pc_start))

theorem traversals_place (g : Graph) (inst : Instruction) (a b : BlockId) :
    (g.place inst).1.traversals a b = g.traversals a b := by
  rw [traversals, traversals, edge?_place]

/-- The edge of a step begins at a block that the graph had before. -/
theorem origin_lt (h : Sound s r) (inst : Instruction) (target : BlockId) (pc : Address) :
    (arrive s.profile (Recorder.place s r inst).1 target pc).origin r.cursor < r.graph.size := by
  rcases origin_arrive s.profile (Recorder.place s r inst).1 target pc with heq | ⟨f, hf, heq⟩
  · exact heq.symm ▸ h.cursor_lt
  · exact heq.symm ▸ h.sites_lt f hf

/-- Once its instruction has a block, a record draws as every step does. -/
theorem drawn_record (s : Setup) (r : Recorder) (inst : Instruction) :
    Drawn (Recorder.place s r inst).1
      (arrive s.profile (Recorder.place s r inst).1 (r.graph.place (s.labelled inst)).2 inst.pc)
      (r.record s inst).graph :=
  drawn_move ..

theorem size_record (s : Setup) (r : Recorder) (inst : Instruction) :
    (r.record s inst).graph.size = (r.graph.place (s.labelled inst)).1.size :=
  (drawn_record s r inst).size

/-- No block goes away. -/
theorem size_le_record (h : Sound s r) (inst : Instruction) :
    r.graph.size ≤ (r.record s inst).graph.size := by
  rw [size_record]
  exact h.size_le_place (s.labelled inst)

/-- What is fixed of a block, a record leaves as it is. -/
theorem fixed_record (h : Sound s r) (inst : Instruction) (hid : id < r.graph.size) :
    ((r.record s inst).graph.block id).fixed = (r.graph.block id).fixed := by
  rw [(drawn_record s r inst).fixed]
  exact h.fixed_place (s.labelled inst) hid

/-- No step takes a traversal away. -/
theorem traversals_le_record (h : Sound s r) (inst : Instruction) (x y : BlockId) :
    r.graph.traversals x y ≤ (r.record s inst).graph.traversals x y := by
  have hle := h.size_le_place (s.labelled inst)
  rw [← traversals_place r.graph (s.labelled inst)]
  exact (drawn_record s r inst).traversals_le (h.mirrored.place _)
    (Nat.lt_of_lt_of_le h.cursor_lt hle) (Nat.lt_of_lt_of_le (h.origin_lt _ _ _) hle) x y

/-- The step of the induction: an instruction that is taken keeps a recorder sound. -/
theorem record (h : Sound s r) (hinst : inst.pc < s.profile.beginAddress) :
    Sound s (r.record s inst) := by
  have htarget := h.target_lt inst
  have hle := h.size_le_place (s.labelled inst)
  have horigin := h.origin_lt inst (r.graph.place (s.labelled inst)).2 inst.pc
  have hcursor := Nat.lt_of_lt_of_le h.cursor_lt hle
  have hdrawn := drawn_record s r inst
  have hmirrored := h.mirrored.place (s.labelled inst)
  have hsize := size_record s r inst
  have hcases : ∀ {id}, id < (r.record s inst).graph.size →
      id < r.graph.size ∨
        id = r.graph.size ∧ (r.graph.place (s.labelled inst)).2 = r.graph.size := by
    intro id hid
    rw [hsize] at hid
    rcases h.catalogued.size_place (s.labelled inst) with hsame | hnew
    · exact .inl (hsame.1 ▸ hid)
    · rw [hnew.1] at hid
      exact (Nat.lt_succ_iff_lt_or_eq.1 hid).imp_right fun heq => ⟨heq, hnew.2⟩
  refine ⟨?_, ?_, ?_, ?_, ?_, fun {id} hid hne => ?_, fun {id} hid => ?_, ?_, ?_,
    fun d hd => ?_⟩
  · exact (h.catalogued.place (s.labelled inst)).congr hdrawn.index hsize hdrawn.content
  · exact hdrawn.mirrored hmirrored hcursor (Nat.lt_of_lt_of_le horigin hle) htarget
  · rw [start_record, hsize]
    exact Nat.lt_of_lt_of_le h.start_lt hle
  · rw [start_record, h.fixed_record inst h.start_lt, h.start_fixed]
  · rw [start_record]
    exact (hdrawn.kind_eq (h.target_ne_start hinst).symm).trans
      ((h.kind_place _ h.start_lt).trans h.start_kind)
  · rw [start_record] at hne
    rcases hcases hid with hold | ⟨rfl, hnew⟩
    · rw [h.fixed_record inst hold]
      exact h.code hold hne
    · obtain ⟨ordinal, hblock⟩ := h.catalogued.block_place_new hnew
      refine ⟨s.labelled inst, by rwa [pc_labelled], (hdrawn.fixed _).trans ?_⟩
      exact (congrArg Block.fixed hblock :)
  · rw [start_record]
    rcases hcases hid with hold | ⟨rfl, hnew⟩
    · rcases h.rooted hold with heq | hkind | ⟨a, hlt, hpos⟩
      · exact .inl heq
      · refine .inr (.inl (hdrawn.isFunctionEntry ?_))
        exact (congrArg BlockKind.isFunctionEntry (h.kind_place _ hold)).trans hkind
      · exact .inr (.inr ⟨a, hlt, Nat.lt_of_lt_of_le hpos (h.traversals_le_record inst a id)⟩)
    · -- a new block is entered from a block that was there before
      have hentered := hdrawn.entered hcursor (Nat.lt_of_lt_of_le horigin hle) htarget
      rw [← hnew]
      rcases hentered with hkind | hpos | hpos
      · exact .inr (.inl (congrArg BlockKind.isFunctionEntry hkind))
      · exact .inr (.inr ⟨_, hnew ▸ h.cursor_lt, hpos⟩)
      · exact .inr (.inr ⟨_, hnew ▸ horigin, hpos⟩)
  · rw [cursor_record, hsize]
    exact htarget
  · intro f hf
    rw [hsize]
    refine Nat.lt_of_lt_of_le ?_ hle
    rcases mem_backtrace_move hf with hold | heq | heq
    · exact h.sites_lt f hold
    · exact heq ▸ h.cursor_lt
    · exact heq ▸ horigin
  · exact (mem_diagnostics_move hd).elim (h.diagnostics d) id

/-! ## Every state -/

/-- So does any record. -/
theorem feed (h : Sound s r) (rec : TraceRecord) : Sound s (r.feed s rec) := by
  cases rec with
  | instruction inst =>
    rw [feed_instruction]
    split
    · exact ⟨h.catalogued, h.mirrored, h.start_lt, h.start_fixed, h.start_kind, h.code, h.rooted,
        h.cursor_lt, h.sites_lt, h.diagnostics⟩
    · rename_i hinst
      exact h.record (Nat.lt_of_not_le hinst)
  | interrupt id =>
    exact ⟨h.catalogued, h.mirrored, h.start_lt, h.start_fixed, h.start_kind, h.code, h.rooted,
      h.cursor_lt, h.sites_lt, h.diagnostics⟩

theorem feedAll (h : Sound s r) (recs : List TraceRecord) : Sound s (r.feedAll s recs) :=
  List.foldlRecOn (motive := Sound s) recs _ h fun _ h rec _ => h.feed rec

theorem countLine (h : Sound s r) : Sound s r.countLine :=
  ⟨h.catalogued, h.mirrored, h.start_lt, h.start_fixed, h.start_kind, h.code, h.rooted,
    h.cursor_lt, h.sites_lt, h.diagnostics⟩

/-- And any line, whatever it holds. -/
theorem feedLine (h : Sound s r) (line : List Char) : Sound s (r.feedLine s line) := by
  unfold Recorder.feedLine
  split
  · exact h.countLine.feed _
  · exact ⟨h.catalogued, h.mirrored, h.start_lt, h.start_fixed, h.start_kind, h.code, h.rooted,
      h.cursor_lt, h.sites_lt, h.diagnostics⟩

end Sound

/-- Every state that records and lines lead to is sound. -/
theorem Reached.sound (h : Reached s r) : Sound s r := by
  induction h with
  | new => exact .new s
  | feed _ rec ih => exact ih.feed rec
  | feedLine _ line ih => exact ih.feedLine line

/-! ## The block before the trace -/

/-- No record draws an edge to the block before the trace. -/
theorem Sound.edge?_start_feed (h : Sound s r) (rec : TraceRecord) (x : BlockId) :
    (r.feed s rec).graph.edge? x (r.feed s rec).start = r.graph.edge? x r.start := by
  cases rec with
  | interrupt id => rfl
  | instruction inst =>
    rw [feed_instruction]
    split
    · rfl
    · rename_i hinst
      have hle := h.size_le_place (s.labelled inst)
      have hother := (h.target_ne_start (Nat.lt_of_not_le hinst)).symm
      rw [start_record, (drawn_record s r inst).edge?_of_ne (Nat.lt_of_lt_of_le h.cursor_lt hle)
        (Nat.lt_of_lt_of_le (h.origin_lt inst _ _) hle) hother]
      exact edge?_place ..

/-- Nothing leads to the block before the trace. -/
theorem Reached.edge?_start (h : Reached s r) (x : BlockId) : r.graph.edge? x r.start = none := by
  induction h with
  | new =>
    show ((forProfile s.profile).insert _).1.edge? x 0 = none
    rw [edge?_insert rfl, edge?, block_of_size_le (Nat.zero_le x)]
    rfl
  | @feed r h rec ih => rw [h.sound.edge?_start_feed, ih]
  | @feedLine r h line ih =>
    unfold Recorder.feedLine
    split
    · rw [h.sound.countLine.edge?_start_feed]
      exact ih
    · exact ih

end TraceFlow.Recorder
