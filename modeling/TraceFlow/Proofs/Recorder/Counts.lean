/-
TraceFlow.Proofs.Recorder.Counts — every step is passed once.

A block is entered along its edges once for each time that its instruction
was executed, except when it was entered as an interrupt handler: then no
edge is drawn. So the claim needs a list of those entries, and the trace
alone does not give it, since the recorder decides. `handlerEntries` runs
the recorder along the records and collects them.

* `Block.runCount` counts the instructions of a list that a block stands
  for. It depends on what is fixed of the block only, so steps keep it.
* `exists_link_draw` reduces the branches of `draw` to the one thing that
  counts here: exactly one edge to the block of the instruction is drawn,
  with a count of one, in a graph with the edges of the one before.
* `Counted` is the invariant of a run. Its step is `Counted.record`, by
  whether a handler is entered (`sameEdges_record`) or an edge is drawn
  (`Counted.counts_record`); its induction is `Counted.feedAll`.

An edge holds at most `countLimit` traversals. No step may be lost to
that, and `Counted.fits` says why none is: an edge into a block is passed
at most as often as the block was entered, and the block at most as often
as there were records. Hence the bound on the length of the run in
`traversals_conserved`, which is the only hypothesis.

The end of the trace is one more edge, from the last block to the block
after it (`Sound.counts_finish`). The stages behind the recorder follow in
`Carried`, in terms of the totals: leading calls to markers moves counts
from block to block, joining loses those inside of chains, and dividing
touches none.
-/
import TraceFlow.Proofs.FunctionMap.Entries
import TraceFlow.Proofs.Graph.Totals
import TraceFlow.Proofs.Recorder.Arrival
import TraceFlow.Proofs.Recorder.Executed

namespace TraceFlow

/-! ## The block of an instruction -/

namespace Block

/-- The block has the address and the opcode of an instruction. -/
def Runs (b : Block) (i : Instruction) : Prop := b.pc = i.pc ∧ b.opcode = i.opcode

instance (b : Block) (i : Instruction) : Decidable (b.Runs i) := inferInstanceAs (Decidable (_ ∧ _))

/-- How many instructions of a list a block stands for. -/
def runCount (b : Block) (is : List Instruction) : Nat := is.countP fun i => b.Runs i

/-- Blocks that agree in what is fixed stand for the same instructions. -/
theorem runCount_of_fixed {b c : Block} (h : b.fixed = c.fixed) : b.runCount = c.runCount := by
  funext is
  refine List.countP_congr fun i _ => ?_
  rw [decide_eq_true_iff, decide_eq_true_iff, Runs, Runs, pc_of_fixed h, opcode_of_fixed h]

theorem runCount_append (b : Block) (is js : List Instruction) :
    b.runCount (is ++ js) = b.runCount is + b.runCount js := List.countP_append

/-- A block that stands for none of the instructions is never counted. -/
theorem runCount_eq_zero {b : Block} {is : List Instruction} (h : ∀ i ∈ is, ¬b.Runs i) :
    b.runCount is = 0 :=
  List.countP_eq_zero.2 fun i hi => by simpa using h i hi

end Block

/-- Each record executes at most one instruction. -/
theorem length_executed_le (p : Profile) (recs : List TraceRecord) :
    (executed p recs).length ≤ recs.length :=
  List.length_filterMap_le ..

/-- Instructions past the address space are not executed. -/
theorem pc_lt_of_mem_executed {p : Profile} {recs : List TraceRecord} {i : Instruction}
    (hi : i ∈ executed p recs) : i.pc < p.beginAddress := by
  obtain ⟨rec, -, hrec⟩ := List.mem_filterMap.1 hi
  cases rec with
  | interrupt id => cases hrec
  | instruction inst =>
    by_cases hinst : p.beginAddress ≤ inst.pc
    · simp [hinst] at hrec
    · obtain rfl : inst = i := by simpa [hinst] using hrec
      exact Nat.lt_of_not_le hinst

namespace Recorder

open TraceFlow.Graph

variable {s : Setup} {r : Recorder} {p : Profile} {a : Arrival} {is hs : List Instruction}
  {inst : Instruction} {id : BlockId}

/-! ## The edge of a step -/

/-- A step that enters no handler is passed along one edge to its block. -/
theorem exists_link_draw (p : Profile) (r : Recorder) (a : Arrival) :
    ∃ x kind g, (x = r.cursor ∨ x = a.origin r.cursor) ∧ SameEdges r.graph g ∧
      (draw p r a).graph = g.link x a.target kind 1 := by
  unfold draw
  cases hsettled : a.settled with
  | matched f => exact ⟨f.site, _, _, .inr (by rw [Arrival.origin, hsettled]), .refl _, rfl⟩
  | missed => exact ⟨r.cursor, _, _, .inl rfl, .refl _, rfl⟩
  | none =>
    simp only [follow]
    split
    · exact ⟨r.cursor, _, _, .inl rfl, .refl _, rfl⟩
    · exact ⟨r.cursor, _, _, .inl rfl, sameEdges_call, rfl⟩
    · split
      · exact ⟨r.cursor, _, _, .inl rfl, .refl _, rfl⟩
      · exact ⟨r.cursor, _, _, .inl rfl, sameEdges_marked true _ _, rfl⟩
    · exact ⟨r.cursor, _, _, .inl rfl, .refl _, rfl⟩

/-- The edge of a step begins at a block that the graph had before, and all else of the edges
stays. -/
theorem Sound.exists_link_record (h : Sound s r) (henters : (arrival s r inst).enters = false) :
    ∃ x kind g, x < r.graph.size ∧ SameEdges (r.graph.place (s.labelled inst)).1 g ∧
      (r.record s inst).graph = g.link x (r.graph.place (s.labelled inst)).2 kind 1 := by
  obtain ⟨x, kind, g, horigin, hsame, hgraph⟩ := exists_link_draw s.profile
    (settleReturn (place s r inst).1 (arrival s r inst)) (arrival s r inst)
  rw [graph_settleReturn] at hsame
  rw [cursor_settleReturn] at horigin
  refine ⟨x, kind, g, ?_, hsame, ?_⟩
  · rcases horigin with heq | heq
    · exact heq ▸ h.cursor_lt
    · exact heq ▸ h.origin_lt inst _ _
  · rw [record_eq_move, move]
    simp only [henters, Bool.false_eq_true, if_false]
    exact hgraph

/-! ## The counts of a run -/

/-- The instructions of a run that were taken as the entry of a handler. -/
def handlerEntries (s : Setup) : Recorder → List TraceRecord → List Instruction
  | _, [] => []
  | r, rec :: recs =>
    (executed s.profile [rec]).filter (fun i => (arrival s r i).enters) ++
      handlerEntries s (r.feed s rec) recs

/-- A state that a run has led to which executed `is`, of them `hs` as entries of handlers: each
block was entered as often as it was executed, but for those, and the counters agree. -/
structure Counted (s : Setup) (is hs : List Instruction) (r : Recorder) : Prop where
  listed : Listed s is r
  taken : hs.Sublist is
  entered : ∀ {id}, id < r.graph.size →
    (r.graph.block id).inCount + (r.graph.block id).runCount hs = (r.graph.block id).runCount is
  total : r.graph.total + hs.length = is.length
  instructions : r.tally.instructions = is.length
  interrupts : r.tally.interrupts = hs.length

namespace Counted

/-- Before the first record no block was entered and none executed. -/
theorem new (s : Setup) : Counted s [] [] (.new s.profile) := by
  have hempty : ∀ id, ((forProfile s.profile).block id).outCount = 0 ∧
      ((forProfile s.profile).block id).inCount = 0 := fun id =>
    counts_of_size_le (Nat.zero_le id)
  refine ⟨.new s, List.Sublist.refl _, fun {id} _ => ?_, ?_, rfl, rfl⟩
  · exact (counts_insert rfl rfl id).2.trans (hempty id).2
  · refine (total_congr (Nat.zero_le _) fun id => ?_ : _ = (forProfile s.profile).total)
    exact (counts_insert rfl rfl id).1

/-- Giving an instruction its block keeps what was counted. -/
theorem place (h : Counted s is hs r) (hinst : inst.pc < s.profile.beginAddress)
    (hid : id < (r.graph.place (s.labelled inst)).1.size) :
    ((r.graph.place (s.labelled inst)).1.block id).inCount +
        ((r.graph.place (s.labelled inst)).1.block id).runCount hs =
      ((r.graph.place (s.labelled inst)).1.block id).runCount is := by
  have hsound := h.listed.sound
  rw [(counts_place r.graph _ id).2]
  by_cases hold : id < r.graph.size
  · rw [Block.runCount_of_fixed (hsound.fixed_place _ hold)]
    exact h.entered hold
  · -- a new block stands for no instruction of the run so far
    have hsize := hsound.catalogued.size_place (s.labelled inst)
    obtain ⟨hnew, htarget⟩ := hsize.resolve_left fun hsame => hold (hsame.1 ▸ hid)
    rw [hnew] at hid
    obtain rfl := Nat.eq_of_lt_succ_of_not_lt hid hold
    have hnone : ∀ i ∈ is,
        ¬((r.graph.place (s.labelled inst)).1.block r.graph.size).Runs i := by
      rintro i hi ⟨hpc, hopcode⟩
      rw [← htarget, hsound.pc_target] at hpc
      rw [← htarget, hsound.opcode_target] at hopcode
      obtain ⟨j, hj, hji⟩ := exists_firstSeen hi
      obtain ⟨x, hx⟩ := Option.isSome_iff_exists.1 <|
        (h.listed.isSome_find?_iff hinst).2 ⟨j, hj, hji.trans ⟨hpc.symm, hopcode.symm⟩⟩
      rw [place_of_find?_some hx] at htarget
      exact Nat.ne_of_lt (hsound.catalogued.find?_eq_some_iff.1 hx).1 htarget
    rw [(counts_of_size_le (Nat.le_refl _)).2, Block.runCount_eq_zero hnone,
      Block.runCount_eq_zero fun i hi => hnone i (h.taken.subset hi)]

end Counted

/-- The block of an instruction runs it, and no other does. -/
theorem Sound.runCount_record (h : Sound s r) (hid : id < (r.record s inst).graph.size)
    (is : List Instruction) :
    ((r.record s inst).graph.block id).runCount (is ++ [inst]) =
      ((r.graph.place (s.labelled inst)).1.block id).runCount is +
        if id = (r.graph.place (s.labelled inst)).2 then 1 else 0 := by
  have hruns : ((r.graph.place (s.labelled inst)).1.block id).Runs inst ↔
      id = (r.graph.place (s.labelled inst)).2 := by
    constructor
    · rintro ⟨hpc, hopcode⟩
      rw [Sound.size_record] at hid
      exact (h.catalogued.place _).distinct hid (h.target_lt inst)
        (hpc.trans (h.pc_target inst).symm) (hopcode.trans (h.opcode_target inst).symm)
    · rintro rfl
      exact ⟨h.pc_target inst, h.opcode_target inst⟩
  have hsame : ((r.record s inst).graph.block id).runCount =
      ((r.graph.place (s.labelled inst)).1.block id).runCount :=
    Block.runCount_of_fixed ((Sound.drawn_record s r inst).fixed id)
  rw [hsame, Block.runCount_append]
  simp [Block.runCount, hruns]

namespace Counted

/-- As long as a run is not too long, one more traversal fits into each edge. -/
theorem fits (h : Counted s is hs r) (hinst : inst.pc < s.profile.beginAddress)
    (hlimit : is.length < countLimit) {x : BlockId} (hx : x < r.graph.size) :
    (r.graph.place (s.labelled inst)).1.traversals x (r.graph.place (s.labelled inst)).2 + 1 ≤
      countLimit := by
  have hsound := h.listed.sound
  have hle := (hsound.mirrored.place (s.labelled inst)).traversals_le_inCount
    (b := (r.graph.place (s.labelled inst)).2) (Nat.lt_of_lt_of_le hx (hsound.size_le_place _))
  have hentered := h.place hinst (hsound.target_lt inst)
  have hruns : ((r.graph.place (s.labelled inst)).1.block
      (r.graph.place (s.labelled inst)).2).runCount is ≤ is.length := List.countP_le_length
  omega

/-- What a step adds to the counts of the graph. -/
theorem counts_record (h : Counted s is hs r) (hinst : inst.pc < s.profile.beginAddress)
    (hlimit : is.length < countLimit) (henters : (arrival s r inst).enters = false) :
    (∀ id, ((r.record s inst).graph.block id).inCount =
      ((r.graph.place (s.labelled inst)).1.block id).inCount +
        if id = (r.graph.place (s.labelled inst)).2 then 1 else 0) ∧
      (r.record s inst).graph.total = (r.graph.place (s.labelled inst)).1.total + 1 := by
  have hsound := h.listed.sound
  obtain ⟨x, kind, g, hx, hsame, hgraph⟩ := hsound.exists_link_record henters
  have hmirrored := (hsound.mirrored.place (s.labelled inst)).sameEdges hsame
  have hxg : x < g.size := by
    rw [hsame.size]
    exact Nat.lt_of_lt_of_le hx (hsound.size_le_place _)
  have htarget : (r.graph.place (s.labelled inst)).2 < g.size := by
    rw [hsame.size]
    exact hsound.target_lt inst
  have hfits := h.fits hinst hlimit hx
  rw [← hsame.traversals] at hfits
  rw [hgraph]
  refine ⟨fun id => ?_, ?_⟩
  · rw [(hmirrored.counts_link hxg htarget Nat.zero_lt_one hfits id).2, hsame.inCount]
  · rw [hmirrored.total_link hxg htarget Nat.zero_lt_one hfits, hsame.total]

/-- The step of the induction, by whether the instruction enters a handler. -/
theorem record (h : Counted s is hs r) (hinst : inst.pc < s.profile.beginAddress)
    (hlimit : is.length < countLimit) :
    Counted s (is ++ [inst]) (hs ++ [inst].filter fun i => (arrival s r i).enters)
      (r.record s inst) := by
  have hsound := h.listed.sound
  have hplaced : (r.graph.place (s.labelled inst)).1.total = r.graph.total :=
    total_congr (hsound.size_le_place _) fun id => (counts_place r.graph _ id).1
  have htally := tally_record s r inst
  have hentered : ∀ {id}, id < (r.record s inst).graph.size →
      ((r.graph.place (s.labelled inst)).1.block id).inCount +
        ((r.graph.place (s.labelled inst)).1.block id).runCount hs =
      ((r.graph.place (s.labelled inst)).1.block id).runCount is := fun hid =>
    h.place hinst (Sound.size_record s r inst ▸ hid)
  cases henters : (arrival s r inst).enters with
  | true =>
    have hsame := sameEdges_record henters
    simp only [List.filter_cons, henters, if_true, List.filter_nil]
    refine ⟨h.listed.record hinst, h.taken.append (.refl _), fun {id} hid => ?_, ?_, ?_, ?_⟩
    · rw [hsame.inCount, hsound.runCount_record hid, hsound.runCount_record hid, ← hentered hid,
        Nat.add_assoc]
    · rw [hsame.total, hplaced, List.length_append, List.length_append, ← h.total]
      exact (Nat.add_assoc ..).symm
    · simp [htally, h.instructions]
    · simp [htally, h.interrupts, henters]
  | false =>
    obtain ⟨hin, hsum⟩ := h.counts_record hinst hlimit henters
    simp only [List.filter_cons, henters, Bool.false_eq_true, if_false, List.filter_nil,
      List.append_nil]
    refine ⟨h.listed.record hinst, h.taken.trans (List.sublist_append_left ..),
      fun {id} hid => ?_, ?_, ?_, ?_⟩
    · rw [hin, hsound.runCount_record hid, ← hentered hid,
        Block.runCount_of_fixed ((Sound.drawn_record s r inst).fixed id)]
      exact Nat.add_right_comm ..
    · rw [hsum, hplaced, List.length_append, ← h.total]
      exact Nat.add_right_comm ..
    · simp [htally, h.instructions]
    · simp [htally, h.interrupts, henters]

/-- A record that is no instruction counts nothing. -/
theorem feed (h : Counted s is hs r) (rec : TraceRecord) (hlimit : is.length < countLimit) :
    Counted s (is ++ executed s.profile [rec])
      (hs ++ (executed s.profile [rec]).filter fun i => (arrival s r i).enters)
      (r.feed s rec) := by
  have hlisted := h.listed.feed rec
  cases rec with
  | interrupt id =>
    simp only [show executed s.profile [.interrupt id] = [] from rfl, List.append_nil,
      List.filter_nil] at hlisted ⊢
    exact ⟨hlisted, h.taken, h.entered, h.total, h.instructions, h.interrupts⟩
  | instruction inst =>
    by_cases hinst : s.profile.beginAddress ≤ inst.pc
    · have hnone : executed s.profile [.instruction inst] = [] := by simp [executed, hinst]
      have hfeed : r.feed s (.instruction inst) = r.skip := by rw [feed_instruction, if_pos hinst]
      rw [hnone, hfeed] at hlisted ⊢
      simp only [List.append_nil, List.filter_nil] at hlisted ⊢
      exact ⟨hlisted, h.taken, h.entered, h.total, h.instructions, h.interrupts⟩
    · have hone : executed s.profile [.instruction inst] = [inst] := by simp [executed, hinst]
      rw [hone, feed_instruction, if_neg hinst]
      exact h.record (Nat.lt_of_not_le hinst) hlimit

/-- The run: what was counted before goes on to be counted. -/
theorem feedAll (h : Counted s is hs r) (recs : List TraceRecord)
    (hlimit : is.length + recs.length ≤ countLimit) :
    Counted s (is ++ executed s.profile recs) (hs ++ handlerEntries s r recs)
      (r.feedAll s recs) := by
  induction recs generalizing is hs r with
  | nil => simpa [executed, handlerEntries] using h
  | cons rec recs ih =>
    rw [List.length_cons] at hlimit
    rw [executed_cons, handlerEntries, ← List.append_assoc, ← List.append_assoc]
    refine ih (h.feed rec (by omega)) ?_
    have hone := length_executed_le s.profile [rec]
    rw [List.length_append]
    simp only [List.length_cons, List.length_nil] at hone
    omega

end Counted

/-! ## The end of the trace -/

/-- Closing a trace is passed once, to the new block. -/
theorem Sound.counts_finish (h : Sound s r) :
    (∀ id, ((r.finish s.profile).graph.block id).inCount =
      (r.graph.block id).inCount + if id = r.graph.size then 1 else 0) ∧
      (r.finish s.profile).graph.total = r.graph.total + 1 := by
  have hmirrored := h.mirrored.insert (endMarker s.profile) rfl rfl
  have hnew : r.graph.size < (r.graph.insert (endMarker s.profile)).1.size := by simp
  have hcursor := h.cursor_lt_insert (endMarker s.profile)
  have hfits : (r.graph.insert (endMarker s.profile)).1.traversals r.cursor r.graph.size + 1 ≤
      countLimit := by
    rw [traversals, edge?_insert rfl, h.mirrored.edge?_eq_none (Nat.le_refl _)]
    exact countLimit_pos
  rw [graph_finish]
  refine ⟨fun id => ?_, ?_⟩
  · rw [(hmirrored.counts_link hcursor hnew Nat.zero_lt_one hfits id).2,
      (counts_insert rfl rfl id).2]
  · rw [hmirrored.total_link hcursor hnew Nat.zero_lt_one hfits,
      total_congr (Nat.le_of_lt hnew) fun id => (counts_insert rfl rfl id).1]

/-- Every step of a run is passed once in the raw graph, unless it was taken as the entry of a
handler, and so is the end of the trace. -/
structure Conserved (s : Setup) (recs : List TraceRecord) (raw : Recording) : Prop where
  instructions : raw.tally.instructions = (executed s.profile recs).length
  interrupts : raw.tally.interrupts = (handlerEntries s (.new s.profile) recs).length
  taken : (handlerEntries s (.new s.profile) recs).Sublist (executed s.profile recs)
  total : raw.graph.total + raw.tally.interrupts = raw.tally.instructions + 1
  entered : ∀ {b}, b < raw.graph.size → (raw.graph.block b).synthetic = none →
    (raw.graph.block b).inCount +
        (raw.graph.block b).runCount (handlerEntries s (.new s.profile) recs) =
      (raw.graph.block b).runCount (executed s.profile recs)
  start : (raw.graph.block raw.start).inCount = 0
  finish : (raw.graph.block raw.finish).inCount = 1 ∧ raw.graph.successors raw.finish = []

/-- Closing a trace counts no instruction and no interrupt. -/
theorem tally_finish (p : Profile) (r : Recorder) :
    (r.finish p).tally.instructions = r.tally.instructions ∧
      (r.finish p).tally.interrupts = r.tally.interrupts := ⟨rfl, rfl⟩

/-- Nothing leaves the block after the trace. -/
theorem Sound.successors_finish (h : Sound s r) :
    (r.finish s.profile).graph.successors r.graph.size = [] := by
  refine List.eq_nil_iff_forall_not_mem.2 fun y hy => ?_
  obtain ⟨e, he⟩ := Option.isSome_iff_exists.1 (mem_successors_iff.1 hy)
  rw [h.edge?_finish, if_neg fun heq => Nat.ne_of_gt h.cursor_lt heq.1] at he
  exact Nat.lt_irrefl _ (lt_size_of_edge? he)

/-- No instruction stands at the address of the block before the trace. -/
theorem Sound.runCount_start (h : Sound s r) (recs : List TraceRecord) :
    (r.graph.block r.start).runCount (executed s.profile recs) = 0 :=
  Block.runCount_eq_zero fun _ hi hruns =>
    Nat.ne_of_gt (pc_lt_of_mem_executed hi) (h.pc_start.symm.trans hruns.1)

/-- Closing a trace adds a marker, and keeps what the other blocks stand for. -/
theorem Sound.fixed_finish {p : Profile} (hid : id < (r.finish p).graph.size)
    (hcode : ((r.finish p).graph.block id).synthetic = none) :
    id < r.graph.size ∧ ((r.finish p).graph.block id).fixed = (r.graph.block id).fixed := by
  have hfixed := Block.fixed_of_body (body_finish p r id)
  by_cases heq : id = r.graph.size
  · rw [if_pos heq] at hfixed
    have hmarked := (Block.synthetic_of_fixed hfixed).symm.trans hcode
    cases hmarked
  · rw [if_neg heq] at hfixed
    rw [size_finish] at hid
    exact ⟨(Nat.lt_succ_iff_lt_or_eq.1 hid).resolve_right heq, hfixed⟩

/-- What a run counted, its raw graph still shows once the trace is closed. -/
theorem conserved_finish {recs : List TraceRecord}
    (h : Counted s (executed s.profile recs) (handlerEntries s (.new s.profile) recs) r) :
    Conserved s recs (r.finish s.profile) := by
  have hsound := h.listed.sound
  obtain ⟨hin, hsum⟩ := hsound.counts_finish
  obtain ⟨hinstructions, hinterrupts⟩ := tally_finish s.profile r
  have hstart : (r.finish s.profile).start = r.start := rfl
  have hfinish : (r.finish s.profile).finish = r.graph.size := rfl
  refine ⟨hinstructions.trans h.instructions, hinterrupts.trans h.interrupts, h.taken, ?_,
    fun {b} hb hcode => ?_, ?_, ?_⟩
  · rw [hsum, hinstructions, hinterrupts, h.instructions, h.interrupts, ← h.total]
    omega
  · obtain ⟨hlt, hfixed⟩ := Sound.fixed_finish hb hcode
    rw [hin, if_neg (Nat.ne_of_lt hlt), Block.runCount_of_fixed hfixed]
    exact h.entered hlt
  · have hentered := h.entered hsound.start_lt
    rw [hsound.runCount_start] at hentered
    rw [hstart, hin, if_neg (Nat.ne_of_lt hsound.start_lt)]
    omega
  · rw [hfinish, hin, if_pos rfl, (counts_of_size_le (Nat.le_refl _)).2]
    exact ⟨rfl, hsound.successors_finish⟩

/-! ## The stages behind -/

/-- Leading calls to markers keeps what leaves each block. Joining straight lines loses what was
passed inside chains; dividing the graph loses nothing. -/
structure Carried (raw : Graph) (e : Extraction) : Prop where
  left : ∀ x, (e.split.block x).outCount = (raw.block x).outCount
  split : e.split.total = raw.total
  joined : ∃ chain head, Straightens chain head e.split e.merged ∧
    e.graph.total + (e.split.ids.map fun b => e.split.along (chain b)).sum = raw.total

/-- Dividing the graph loses no traversal. -/
theorem Sound.total_extraction (h : Sound s r) :
    ((r.finish s.profile).extraction s.profile).graph.total =
      ((r.finish s.profile).extraction s.profile).merged.graph.total :=
  (FunctionMap.sameEdges_functionMap h).total

/-- The stages keep what leaves each block, up to what they join. -/
theorem carried_of_sound (h : Sound s r) :
    Carried (r.finish s.profile).graph ((r.finish s.profile).extraction s.profile) := by
  have hraw := h.raw_finish
  have hmerged := hraw.claimable.mergeStraightLines s.profile
  obtain ⟨chain, head, hstraight⟩ := Extraction.straightened_of_sound h
  refine ⟨hraw.outCount_split, hraw.total_split, chain, head, hstraight, ?_⟩
  have hisolated : ∀ {b}, (((r.finish s.profile).extraction s.profile).merged.graph.block
      b).mergedInto ≠ none →
      (((r.finish s.profile).extraction s.profile).merged.graph.block b).out = ∅ := fun hne =>
    SortedMap.ext_get? fun x => (hmerged.isolated hne x).1
  have htotal := total_straightens hstraight hisolated
  rw [← h.total_extraction] at htotal
  exact htotal.trans hraw.total_split

/-- **Traversals are conserved**, whatever the CPU and the records are. As long as no edge can be
passed more often than is counted, the edges of the raw graph are passed once for each instruction
executed, but for entries of handlers, and once at the end; each block is entered as often as it was
executed, but for those. Of that, the stages up to the functions lose what is passed inside straight
lines. -/
theorem traversals_conserved (s : Setup) :
    (∀ recs : List TraceRecord, recs.length < countLimit →
      Conserved s recs (((Recorder.new s.profile).feedAll s recs).finish s.profile)) ∧
      ∀ r, Reached s r →
        Carried (r.finish s.profile).graph ((r.finish s.profile).extraction s.profile) := by
  refine ⟨fun recs hlimit => conserved_finish ?_, fun r h => carried_of_sound h.sound⟩
  have hcounted := (Counted.new s).feedAll recs (by simpa using Nat.le_of_lt hlimit)
  simpa using hcounted

/-- An interrupt between two rounds of a loop. Of five instructions four are entered along an edge,
the handler is not. Of the five traversals, two lie inside the loop, which becomes one block. -/
theorem traversals_conserved_interrupt :
    let s : Setup := { profile := .gameBoy }
    let first : Instruction := { pc := 0x100, opcode := [0x00] }
    let second : Instruction := { pc := 0x101, opcode := [0x18], operand := [0xFD] }
    let handler : Instruction := { pc := 0x40, opcode := [0xD9] }
    let recs := [.instruction first, .instruction second, .interrupt 1, .instruction handler,
      .instruction first, .instruction second]
    let r := (Recorder.new s.profile).feedAll s recs
    let raw := r.finish s.profile
    let e := raw.extraction s.profile
    Conserved s recs raw ∧ Carried raw.graph e ∧
      handlerEntries s (.new s.profile) recs = [handler] ∧ raw.graph.total = 5 ∧
      e.graph.total = 3 := by
  intro s first second handler recs r raw e
  have hreached : Reached s r := Reached.new.feedAll recs
  have hdivided : e.graph.total = e.merged.graph.total := hreached.sound.total_extraction
  exact ⟨(traversals_conserved s).1 recs (by decide), (traversals_conserved s).2 r hreached,
    by decide +kernel, by decide +kernel, hdivided.trans (by decide +kernel)⟩

end Recorder

end TraceFlow
