/-
TraceFlow.Proofs.Recorder.Steps — what one step of a recorder can do, said
once, so that no later invariant takes the step function apart again.

A step has a block for its instruction, settles a return, and then enters
a handler or draws an edge. The file follows its results one by one:

* the graph. `Drawn` lists the ways in which a step changes it once the
  instruction has its block: the block becomes a handler, a call is drawn,
  or some other edge is. `drawn_move` is the one place where the branches
  of `move` are split, and every fact about graphs after it is a lemma of
  `Drawn` with three cases: `Drawn.mirrored`, `Drawn.edge?_of_ne`,
  `Drawn.traversals_le`, `Drawn.noMiss`.
* the counters. `tally_move` gives them as one record, from
  `tally_settleReturn` and `tally_follow`.
* the backtrace. `backtrace_move` gives it as one conditional, from which
  `backtrace_feed` reads off that a record leaves it as it is, pushes one
  frame or takes one away.

`Block.fixed` is what of a block no step changes. Its projections are
lemmas, so that an equation between two blocks as wholes serves for each
of their parts.

Runs come last. `suffix_feedAll` is by induction on the records, with the
step in `suffix_feed`: a run that stays above a depth leaves the frames up
to there alone, since no record takes away more than one. `Reached` are
the states that records and lines lead to; each invariant of the later
modules is an induction over it.
-/
import TraceFlow.Recorder
import TraceFlow.Proofs.Graph.Catalogue
import TraceFlow.Proofs.Graph.Mirror

namespace TraceFlow

/-- What of a block stays while a trace is followed; new blocks at its address may change its
ordinal. -/
def Block.fixed (b : Block) : Block := { b.content with ordinal := none }

namespace Block

variable {b c : Block}

/-- What is fixed of a block decides its instructions. -/
theorem instructions_of_fixed (h : b.fixed = c.fixed) : b.instructions = c.instructions :=
  (congrArg instructions h :)

theorem lastOpcode_of_fixed (h : b.fixed = c.fixed) : b.lastOpcode = c.lastOpcode :=
  (congrArg lastOpcode h :)

theorem pc_of_fixed (h : b.fixed = c.fixed) : b.pc = c.pc := (congrArg pc h :)

theorem opcode_of_fixed (h : b.fixed = c.fixed) : b.opcode = c.opcode := (congrArg opcode h :)

theorem synthetic_of_fixed (h : b.fixed = c.fixed) : b.synthetic = c.synthetic :=
  (congrArg synthetic h :)

/-- Blocks of the same content agree in what is fixed. -/
theorem fixed_of_content (h : b.content = c.content) : b.fixed = c.fixed :=
  congrArg (fun b : Block => { b with ordinal := none }) h

/-- Blocks of the same body do. -/
theorem fixed_of_body (h : b.body = c.body) : b.fixed = c.fixed := (congrArg fixed h :)

theorem kind_of_body (h : b.body = c.body) : b.kind = c.kind := (congrArg kind h :)

theorem takenFound_of_body (h : b.body = c.body) : b.takenFound = c.takenFound :=
  (congrArg takenFound h :)

end Block

namespace Recorder

open TraceFlow.Graph

variable {s : Setup} {p : Profile} {r : Recorder} {a : Arrival} {inst : Instruction} {g : Graph}

/-! ## Parts of a step -/

/-- Settling a return touches neither the graph nor the cursor. -/
@[simp] theorem graph_settleReturn : (settleReturn r a).graph = r.graph := by
  unfold settleReturn
  split <;> rfl

@[simp] theorem cursor_settleReturn : (settleReturn r a).cursor = r.cursor := by
  unfold settleReturn
  split <;> rfl

@[simp] theorem start_settleReturn : (settleReturn r a).start = r.start := by
  unfold settleReturn
  split <;> rfl

@[simp] theorem start_follow : (follow p r a).start = r.start := by
  unfold follow
  simp only
  split <;> try rfl
  split <;> rfl

@[simp] theorem start_draw : (draw p r a).start = r.start := by
  unfold draw
  split <;> simp

@[simp] theorem start_move : (move p r a).start = r.start := by
  unfold move
  simp only
  split <;> simp [enterHandler]

/-- No step moves the block before the trace. -/
@[simp] theorem start_record : (r.record s inst).start = r.start := by
  simp [record, place]

/-- After a step the cursor is at the block of its instruction. -/
@[simp] theorem cursor_record :
    (r.record s inst).cursor = (r.graph.place (s.labelled inst)).2 := rfl

@[simp] theorem pc_labelled : (s.labelled inst).pc = inst.pc := by
  unfold Setup.labelled
  split <;> rfl

@[simp] theorem opcode_labelled : (s.labelled inst).opcode = inst.opcode := by
  unfold Setup.labelled
  split <;> rfl

@[simp] theorem diagnostics_follow : (follow p r a).diagnostics = r.diagnostics := by
  unfold follow
  cases p.transfer a.opcode a.offset <;> simp
  split <;> rfl

/-- Only settling a return reports anything. -/
theorem diagnostics_move : (move p r a).diagnostics = (settleReturn r a).diagnostics := by
  unfold move
  by_cases henters : a.enters
  · simp [henters, enterHandler]
  · cases hsettled : a.settled <;> simp [henters, draw, hsettled]

/-- A step reports nothing but a return that missed. -/
theorem mem_diagnostics_move {d : Diagnostic} (hd : d ∈ (move p r a).diagnostics) :
    d ∈ r.diagnostics ∨ d.isUnclaimed = false := by
  rw [diagnostics_move] at hd
  unfold settleReturn at hd
  split at hd
  · exact .inl hd
  · exact .inl hd
  · exact (List.mem_cons.1 hd).elim (fun heq => .inr (heq ▸ rfl)) .inl

/-! ## The graph -/

def NoMiss (g : Graph) : Prop := ∀ a b e, g.edge? a b = some e → e.kind ≠ .returnMiss

/-- Misses are a matter of the edges alone. -/
theorem NoMiss.sameEdges {g' : Graph} (h : NoMiss g) (same : SameEdges g g') : NoMiss g' := by
  intro a b e he
  rw [same.edge?] at he
  exact h a b e he

/-- An edge that is drawn as anything but a miss adds none. -/
theorem NoMiss.link (h : NoMiss g) {x y : BlockId} {kind : Option LinkKind} {n : Nat}
    (hx : x < g.size) (hkind : kind ≠ some .returnMiss) (hn : 0 < n) :
    NoMiss (g.link x y kind n) := by
  intro a b e he
  rw [edge?_link hx hn] at he
  split at he
  · cases he
    unfold Edge.raised
    cases kind with
    | some k => exact fun heq => hkind (congrArg some heq)
    | none =>
      cases hold : g.edge? x y with
      | none => simp
      | some old => exact h x y old hold
  · exact h a b e he

/-- The block after it was called: plain code becomes a subroutine. -/
def called (b : Block) : Block := if b.kind = .code then { b with kind := .subroutine } else b

/-- The graphs to which a step may lead, once its instruction has a block. -/
inductive Drawn (r : Recorder) (a : Arrival) : Graph → Prop
  /-- The block becomes a handler, and no edge is drawn. -/
  | handler : Drawn r a (r.graph.modify a.target fun b => { b with kind := .handler })
  /-- The block is called from the one executed last. -/
  | call : Drawn r a ((foundTaken (r.graph.modify a.target called) r.cursor).link r.cursor a.target
      (some .callTaken) 1)
  /-- Another edge leads to the block, from where the step begins; the block executed last may be
  marked. Only a return that missed draws the edge of one. -/
  | edge (marked : Bool) (kind : Option LinkKind) (hkind : kind ≠ some .callTaken)
      (hmiss : kind = some .returnMiss → a.settled = .missed) :
      Drawn r a ((if marked then foundTaken r.graph r.cursor else r.graph).link (a.origin r.cursor)
        a.target kind 1)

/-- A step changes the graph in no other way. -/
theorem drawn_move (p : Profile) (r : Recorder) (a : Arrival) :
    Drawn r a (move p r a).graph := by
  unfold move
  simp only
  split
  · rw [enterHandler, graph_settleReturn]
    exact .handler
  · unfold draw
    cases hsettled : a.settled with
    | matched f =>
      have := Drawn.edge (r := r) (a := a) false none (by simp) (by simp)
      simpa [Arrival.origin, hsettled] using this
    | missed =>
      have := Drawn.edge (r := r) (a := a) false (some .returnMiss) (by simp) fun _ => hsettled
      simpa [Arrival.origin, hsettled] using this
    | none =>
      have horigin : a.origin r.cursor = r.cursor := by rw [Arrival.origin, hsettled]
      simp only [follow, graph_settleReturn, cursor_settleReturn]
      split
      · have := Drawn.edge (r := r) (a := a) false (some .notTaken) (by simp) (by simp)
        simpa [horigin] using this
      · exact .call
      · split
        · have := Drawn.edge (r := r) (a := a) false none (by simp) (by simp)
          simpa [horigin] using this
        · have := Drawn.edge (r := r) (a := a) true (some .taken) (by simp) (by simp)
          simpa [horigin] using this
      · have := Drawn.edge (r := r) (a := a) false none (by simp) (by simp)
        simpa [horigin] using this

/-- A return is matched against the innermost frame and no other. -/
theorem head?_of_settle {pc : Address} {backtrace : List Frame} {f : Frame}
    (h : settle p g pc backtrace = .matched f) : backtrace.head? = some f := by
  unfold settle at h
  split at h
  · cases h
  · split at h <;> cases h
    rfl

/-- Where the edge of a judged step begins: at the cursor or at a site of the backtrace. -/
theorem origin_arrive (p : Profile) (r : Recorder) (target : BlockId) (pc : Address) :
    (arrive p r target pc).origin r.cursor = r.cursor ∨
      ∃ f ∈ r.backtrace, (arrive p r target pc).origin r.cursor = f.site := by
  cases hsettled : (arrive p r target pc).settled with
  | matched f =>
    refine .inr ⟨f, ?_, by rw [Arrival.origin, hsettled]⟩
    unfold arrive at hsettled
    simp only at hsettled
    split at hsettled
    · exact List.mem_of_mem_head? (head?_of_settle hsettled)
    · cases hsettled
  | missed => exact .inl (by rw [Arrival.origin, hsettled])
  | none => exact .inl (by rw [Arrival.origin, hsettled])

/-- Finding the taken edge changes no content. -/
theorem content_foundTaken {g : Graph} {id j : BlockId} :
    ((foundTaken g j).block id).content = (g.block id).content :=
  content_modify fun _ => rfl

theorem content_called (b : Block) : (called b).content = b.content := by
  unfold called
  split <;> rfl

theorem isFunctionEntry_called (b : Block) : (called b).kind.isFunctionEntry = true := by
  unfold called
  split
  · rfl
  · rename_i hcode
    cases hkind : b.kind with
    | code => exact absurd hkind hcode
    | subroutine => rfl
    | handler => rfl

theorem kind_foundTaken {g : Graph} {id j : BlockId} :
    ((foundTaken g j).block id).kind = (g.block id).kind := by
  rw [foundTaken, block_modify]
  split <;> rfl

theorem sameEdges_marked (marked : Bool) (g : Graph) (id : BlockId) :
    SameEdges g (if marked then foundTaken g id else g) := by
  cases marked
  · exact .refl g
  · exact .modify (fun _ => rfl) fun _ => rfl

theorem sameEdges_handler {id : BlockId} :
    SameEdges g (g.modify id fun b => { b with kind := .handler }) :=
  .modify (fun _ => rfl) fun _ => rfl

/-- A call marks its target and its source before its edge is drawn. -/
theorem sameEdges_called (g : Graph) (x y : BlockId) :
    SameEdges g (foundTaken (g.modify y called) x) := by
  refine (SameEdges.modify ?_ ?_).trans (.modify (fun _ => rfl) fun _ => rfl)
  all_goals
    intro b
    unfold called
    split <;> rfl

theorem sameEdges_call :
    SameEdges r.graph (foundTaken (r.graph.modify a.target called) r.cursor) :=
  sameEdges_called ..

namespace Drawn

/-- No step adds a block, once its instruction has one. -/
theorem size (h : Drawn r a g) : g.size = r.graph.size := by
  cases h with
  | handler => exact size_modify ..
  | call => simp [foundTaken]
  | edge marked _ _ _ => cases marked <;> simp [foundTaken]

theorem index (h : Drawn r a g) : g.index = r.graph.index := by
  cases h with
  | handler => rfl
  | call => exact index_link
  | edge marked _ _ _ => cases marked <;> exact index_link

/-- Nor does it change what a block holds. -/
theorem content (h : Drawn r a g) (id : BlockId) :
    (g.block id).content = (r.graph.block id).content := by
  cases h with
  | handler => exact content_modify fun _ => rfl
  | call => rw [content_link, content_foundTaken, content_modify content_called]
  | edge marked kind _ _ =>
    rw [content_link]
    cases marked
    · rfl
    · exact content_foundTaken

theorem fixed (h : Drawn r a g) (id : BlockId) :
    (g.block id).fixed = (r.graph.block id).fixed :=
  Block.fixed_of_content (h.content id)

/-- A step changes the kind of no block but its own. -/
theorem kind_eq (h : Drawn r a g) {id : BlockId} (hid : id ≠ a.target) :
    (g.block id).kind = (r.graph.block id).kind := by
  have hother : ∀ f, (r.graph.modify a.target f).block id = r.graph.block id := by
    intro f
    rw [block_modify, if_neg fun e => hid e.1.symm]
  cases h with
  | handler => rw [hother]
  | call => rw [kind_link, kind_foundTaken, hother]
  | edge marked kind _ _ =>
    rw [kind_link]
    cases marked
    · rfl
    · exact kind_foundTaken

/-- A block that begins a function still does after a step. -/
theorem isFunctionEntry (h : Drawn r a g) {id : BlockId}
    (hid : (r.graph.block id).kind.isFunctionEntry) : (g.block id).kind.isFunctionEntry := by
  cases h with
  | handler =>
    rw [block_modify]
    split
    · rfl
    · exact hid
  | call =>
    rw [kind_link, kind_foundTaken, block_modify]
    split
    · unfold called
      split
      · rfl
      · exact hid
    · exact hid
  | edge marked kind _ _ =>
    rw [kind_link]
    cases marked
    · exact hid
    · exact kind_foundTaken (g := r.graph) ▸ hid

/-- The edges stay mirrored, since each one is drawn at both of its ends. -/
theorem mirrored (h : Drawn r a g) (hm : Mirrored r.graph) (hcursor : r.cursor < r.graph.size)
    (horigin : a.origin r.cursor < r.graph.size) (htarget : a.target < r.graph.size) :
    Mirrored g := by
  cases h with
  | handler => exact hm.sameEdges sameEdges_handler
  | call =>
    refine (hm.sameEdges sameEdges_call).link ?_ ?_ _ _
    · rwa [sameEdges_call.size]
    · rwa [sameEdges_call.size]
  | edge marked kind _ _ =>
    have hsame := sameEdges_marked marked r.graph r.cursor
    refine (hm.sameEdges hsame).link ?_ ?_ _ _
    · rwa [hsame.size]
    · rwa [hsame.size]

/-- A step draws an edge to its own block only. -/
theorem edge?_of_ne {x y : BlockId} (h : Drawn r a g) (hcursor : r.cursor < r.graph.size)
    (horigin : a.origin r.cursor < r.graph.size) (hy : y ≠ a.target) :
    g.edge? x y = r.graph.edge? x y := by
  cases h with
  | handler => exact sameEdges_handler.edge? x y
  | call =>
    have hsize : r.cursor < (foundTaken (r.graph.modify a.target called) r.cursor).size := by
      rwa [sameEdges_call.size]
    rw [edge?_link hsize Nat.zero_lt_one, if_neg fun e => hy e.2]
    exact sameEdges_call.edge? x y
  | edge marked kind _ _ =>
    have hsame := sameEdges_marked marked r.graph r.cursor
    rw [edge?_link (by rwa [hsame.size]) Nat.zero_lt_one, if_neg fun e => hy e.2]
    exact hsame.edge? x y

/-- A step takes no traversal away. -/
theorem traversals_le (h : Drawn r a g) (hm : Mirrored r.graph) (hcursor : r.cursor < r.graph.size)
    (horigin : a.origin r.cursor < r.graph.size) (x y : BlockId) :
    r.graph.traversals x y ≤ g.traversals x y := by
  cases h with
  | handler =>
    exact Nat.le_of_eq (sameEdges_handler.traversals x y).symm
  | call =>
    rw [← sameEdges_call.traversals]
    refine (hm.sameEdges sameEdges_call).traversals_le_link ?_ _ Nat.zero_lt_one
    rwa [sameEdges_call.size]
  | edge marked kind _ _ =>
    have hsame := sameEdges_marked marked r.graph r.cursor
    rw [← hsame.traversals]
    exact (hm.sameEdges hsame).traversals_le_link (by rwa [hsame.size]) _ (by decide)

/-- A step leads to its block along an edge, unless it makes the block a handler. -/
theorem entered (h : Drawn r a g) (hcursor : r.cursor < r.graph.size)
    (horigin : a.origin r.cursor < r.graph.size) (htarget : a.target < r.graph.size) :
    (g.block a.target).kind = .handler ∨ 0 < g.traversals r.cursor a.target ∨
      0 < g.traversals (a.origin r.cursor) a.target := by
  cases h with
  | handler =>
    rw [block_modify, if_pos ⟨rfl, htarget⟩]
    exact .inl rfl
  | call =>
    rw [traversals_link (by rwa [sameEdges_call.size]) (by decide), if_pos ⟨rfl, rfl⟩]
    exact .inr (.inl (saturate_pos (Nat.succ_pos _)))
  | edge marked kind _ _ =>
    have hsame := sameEdges_marked marked r.graph r.cursor
    refine .inr (.inr ?_)
    rw [traversals_link (by rwa [hsame.size]) (by decide), if_pos ⟨rfl, rfl⟩]
    exact saturate_pos (Nat.succ_pos _)

/-- A step that misses no return draws no edge of one. -/
theorem noMiss (h : Drawn r a g) (hcursor : r.cursor < r.graph.size)
    (horigin : a.origin r.cursor < r.graph.size) (hsettled : a.settled ≠ .missed)
    (hold : NoMiss r.graph) : NoMiss g := by
  cases h with
  | handler => exact hold.sameEdges sameEdges_handler
  | call =>
    refine (hold.sameEdges sameEdges_call).link ?_ (by simp) Nat.zero_lt_one
    rwa [sameEdges_call.size]
  | edge marked kind _ hmiss =>
    have hsame := sameEdges_marked marked r.graph r.cursor
    refine (hold.sameEdges hsame).link ?_ (fun heq => hsettled (hmiss heq)) Nat.zero_lt_one
    rwa [hsame.size]

end Drawn

/-! ## The counters -/

/-- A settled return is counted, and counted once more when it misses. -/
theorem tally_settleReturn :
    (settleReturn r a).tally = { r.tally with
      returns := r.tally.returns + if a.settled = .none then 0 else 1
      returnMisses := r.tally.returnMisses + if a.settled = .missed then 1 else 0 } := by
  unfold settleReturn
  cases a.settled <;> simp

/-- A call is the only step that the rest of a move counts. -/
theorem tally_follow :
    (follow p r a).tally = { r.tally with
      calls := r.tally.calls + if p.transfer a.opcode a.offset = .call then 1 else 0 } := by
  unfold follow
  cases p.transfer a.opcode a.offset <;> simp
  split <;> rfl

/-- What a judged step counts. -/
theorem tally_move :
    (move p r a).tally = { r.tally with
      returns := r.tally.returns + if a.settled = .none then 0 else 1
      returnMisses := r.tally.returnMisses + if a.settled = .missed then 1 else 0
      calls := r.tally.calls +
        if a.enters = false ∧ a.settled = .none ∧ p.transfer a.opcode a.offset = .call then 1 else 0
      interrupts := r.tally.interrupts + if a.enters then 1 else 0 } := by
  unfold move
  by_cases henters : a.enters
  · simp [henters, enterHandler, tally_settleReturn]
  · cases hsettled : a.settled <;>
      simp [henters, draw, hsettled, tally_follow, tally_settleReturn]

/-! ## The backtrace -/

/-- A settled return takes the innermost frame, matched or not. -/
theorem backtrace_settleReturn :
    (settleReturn r a).backtrace = if a.settled = .none then r.backtrace else r.backtrace.tail := by
  unfold settleReturn
  cases a.settled <;> simp

/-- A call leaves a frame that is returned to behind the call. -/
theorem backtrace_follow :
    (follow p r a).backtrace =
      if p.transfer a.opcode a.offset = .call then ⟨r.cursor, .past p.call.offset⟩ :: r.backtrace
      else r.backtrace := by
  unfold follow
  cases p.transfer a.opcode a.offset <;> simp
  split <;> rfl

/-- What a judged step makes of the backtrace. -/
theorem backtrace_move :
    (move p r a).backtrace =
      if a.enters then ⟨a.origin r.cursor, a.resume p⟩ :: (settleReturn r a).backtrace
      else if a.settled = .none ∧ p.transfer a.opcode a.offset = .call then
        ⟨r.cursor, .past p.call.offset⟩ :: r.backtrace
      else (settleReturn r a).backtrace := by
  unfold move
  by_cases henters : a.enters
  · simp [henters, enterHandler]
  · simp only [henters, Bool.false_eq_true, if_false]
    unfold draw
    cases hsettled : a.settled with
    | none => simp [backtrace_follow, backtrace_settleReturn, hsettled]
    | matched f => simp
    | missed => simp

/-- A frame of the backtrace was there before or stands for the block that the step leaves. -/
theorem mem_backtrace_move {f : Frame} (hf : f ∈ (move p r a).backtrace) :
    f ∈ r.backtrace ∨ f.site = r.cursor ∨ f.site = a.origin r.cursor := by
  have hsettled : ∀ f ∈ (settleReturn r a).backtrace, f ∈ r.backtrace := by
    intro f hf
    rw [backtrace_settleReturn] at hf
    split at hf
    · exact hf
    · exact List.mem_of_mem_tail hf
  rw [backtrace_move] at hf
  split at hf
  · rcases List.mem_cons.1 hf with rfl | hf
    · exact .inr (.inr rfl)
    · exact .inl (hsettled f hf)
  · split at hf
    · rcases List.mem_cons.1 hf with rfl | hf
      · exact .inr (.inl rfl)
      · exact .inl hf
    · exact .inl (hsettled f hf)

/-- A taken return to a vector misses only when nothing is pending. -/
theorem eq_nil_of_settle_missed {pc : Address} {backtrace : List Frame}
    (hvector : p.isInterruptVector pc) (h : settle p g pc backtrace = .missed) :
    backtrace = [] := by
  unfold settle belongs at h
  cases backtrace with
  | nil => rfl
  | cons f rest => cases hf : f.landing <;> simp [hf, hvector] at h

/-- A step leaves the backtrace as it is, pushes one frame or takes the innermost away. -/
theorem backtrace_arrive (p : Profile) (r : Recorder) (target : BlockId) (pc : Address) :
    (move p r (arrive p r target pc)).backtrace = r.backtrace ∨
      (∃ f, (move p r (arrive p r target pc)).backtrace = f :: r.backtrace) ∨
      (move p r (arrive p r target pc)).backtrace = r.backtrace.tail := by
  have hsettle : ∀ o, (arrive p r target pc).settled = o → o ≠ .none →
      settle p r.graph pc r.backtrace = o := by
    intro o ho hne
    unfold arrive at ho
    simp only at ho
    split at ho
    · exact ho
    · exact absurd ho.symm hne
  rw [backtrace_move, backtrace_settleReturn]
  split
  · rename_i henters
    have hvector : p.isInterruptVector pc = true := by
      simp only [arrive, Profile.entersHandler, Bool.and_eq_true] at henters
      exact henters.2.1
    cases hsettled : (arrive p r target pc).settled with
    | none => exact .inr (.inl ⟨_, rfl⟩)
    | matched f =>
      -- the frame that the return would end is owed by the handler's caller now
      have hhead := head?_of_settle (hsettle _ hsettled (by simp))
      obtain ⟨rest, hrest⟩ := List.head?_eq_some_iff.1 hhead
      simp only [Arrival.origin, Arrival.resume, hsettled, hrest]
      exact .inl rfl
    | missed =>
      have hnil := eq_nil_of_settle_missed hvector (hsettle _ hsettled (by simp))
      rw [if_neg (by simp), hnil]
      exact .inr (.inl ⟨_, rfl⟩)
  · split
    · exact .inr (.inl ⟨_, rfl⟩)
    · split
      · exact .inl rfl
      · exact .inr (.inr rfl)

/-- An instruction past the address space is skipped. -/
theorem feed_instruction (s : Setup) (r : Recorder) (inst : Instruction) :
    r.feed s (.instruction inst) =
      if s.profile.beginAddress ≤ inst.pc then r.skip else r.record s inst := rfl

/-- A record leaves the backtrace as it is, pushes one frame or takes the innermost away. -/
theorem backtrace_feed (s : Setup) (r : Recorder) (rec : TraceRecord) :
    (r.feed s rec).backtrace = r.backtrace ∨ (∃ f, (r.feed s rec).backtrace = f :: r.backtrace) ∨
      (r.feed s rec).backtrace = r.backtrace.tail := by
  cases rec with
  | instruction inst =>
    rw [feed_instruction]
    split
    · exact .inl rfl
    · exact backtrace_arrive s.profile (place s r inst).1 (place s r inst).2 inst.pc
  | interrupt id => exact .inl rfl

/-! ## Sequences of records -/

def feedAll (s : Setup) (r : Recorder) (recs : List TraceRecord) : Recorder :=
  recs.foldl (feed s) r

@[simp] theorem feedAll_nil (s : Setup) (r : Recorder) : r.feedAll s [] = r := rfl

@[simp] theorem feedAll_cons (s : Setup) (r : Recorder) (rec : TraceRecord)
    (recs : List TraceRecord) : r.feedAll s (rec :: recs) = (r.feed s rec).feedAll s recs := rfl

/-- A sequence is followed part by part. -/
theorem feedAll_append (s : Setup) (r : Recorder) (recs more : List TraceRecord) :
    r.feedAll s (recs ++ more) = (r.feedAll s recs).feedAll s more := List.foldl_append ..

/-- A record that leaves the backtrace as deep as some of its frames leaves those alone. -/
theorem suffix_feed {base : List Frame} (s : Setup) (rec : TraceRecord)
    (hbase : base <:+ r.backtrace) (hdeep : base.length ≤ (r.feed s rec).backtrace.length) :
    base <:+ (r.feed s rec).backtrace := by
  rcases backtrace_feed s r rec with hsame | ⟨f, hpush⟩ | hpop
  · rw [hsame]
    exact hbase
  · rw [hpush]
    exact hbase.trans (List.suffix_cons ..)
  · rw [hpop] at hdeep ⊢
    exact List.suffix_of_suffix_length_le hbase (List.tail_suffix _) hdeep

/-- A run that stays above a depth leaves the frames up to there alone. -/
theorem suffix_feedAll {base : List Frame} (s : Setup) {recs : List TraceRecord}
    (hbase : base <:+ r.backtrace)
    (hdeep : ∀ q, q <+: recs → base.length ≤ (r.feedAll s q).backtrace.length) :
    base <:+ (r.feedAll s recs).backtrace := by
  induction recs generalizing r with
  | nil => exact hbase
  | cons rec recs ih =>
    have hfirst := hdeep [rec] (List.prefix_append [rec] recs)
    refine ih (suffix_feed s rec hbase hfirst) fun q hq => ?_
    exact hdeep (rec :: q) (List.cons_prefix_cons.2 ⟨rfl, hq⟩)

/-- A run that stays above the depth at which it begins and ends there gives back what was
pending. -/
theorem backtrace_feedAll (s : Setup) {recs : List TraceRecord}
    (hdeep : ∀ q, q <+: recs → r.backtrace.length ≤ (r.feedAll s q).backtrace.length)
    (hlevel : (r.feedAll s recs).backtrace.length = r.backtrace.length) :
    (r.feedAll s recs).backtrace = r.backtrace :=
  ((suffix_feedAll s List.suffix_rfl hdeep).eq_of_length hlevel.symm).symm

/-- The states that records and lines lead to. -/
inductive Reached (s : Setup) : Recorder → Prop
  | new : Reached s (.new s.profile)
  | feed {r : Recorder} (h : Reached s r) (rec : TraceRecord) : Reached s (r.feed s rec)
  | feedLine {r : Recorder} (h : Reached s r) (line : List Char) : Reached s (r.feedLine s line)

/-- A run from a state that is reached leads to one. -/
theorem Reached.feedAll {s : Setup} (h : Reached s r) (recs : List TraceRecord) :
    Reached s (r.feedAll s recs) :=
  List.foldlRecOn (motive := Reached s) recs _ h fun _ h rec _ => h.feed rec

theorem Reached.feedLines {s : Setup} (h : Reached s r) (lines : List (List Char)) :
    Reached s (r.feedLines s lines) :=
  List.foldlRecOn (motive := Reached s) lines _ h fun _ h line _ => h.feedLine line

end Recorder

end TraceFlow
