/-
TraceFlow.Proofs.Recorder.Interrupts — what an interrupt does to the step
that it comes upon.

An instruction that may branch is followed by its successor, and the step
between them is classified. If a handler runs in between, the step that
reaches the successor comes from the handler's return. It is drawn from the
right block, but it is not classified any more. The module says what is
lost by that, for a call, a jump or a relative jump.

* `Arrived` is what a step leaves: an edge of some kind, a block that
  begins a function or does not, and a backtrace. `SameStep` compares two
  states by it. Both runs are brought to this form, and then
  `Arrived.sameStep_iff` compares them by three equations.
* Without the interrupt the step is `At.follows`: the kind is that of
  `kindOfStep`, and a call pushes a frame and makes its target a function.
* With it, `Handler` is the run in between: it takes nothing away that was
  pending, leaves nothing else pending, and ends in a return that does not
  fall through to the next instruction. `Handler.backtrace` is all that is
  used of its inside. `At.resumed` is the step behind it: the edge is drawn
  without a kind, and nothing is pushed.
* `Untouched` is for handlers that do not execute the instruction that
  they return to. Such a run leaves the edges to its block alone, so that
  the kind behind the handler is the one before it
  (`Sound.untouched_feedAll`, by induction on the records).

`interrupted_step` states the exact condition under which the two runs do
the same; the condition is an equivalence, since the interrupt does no harm
where the graph already shows what the step would have added. Two runs
follow it, one on each side of the condition.
-/
import TraceFlow.Proofs.Recorder.Balance

namespace TraceFlow

/-! ## The block of an instruction -/

namespace Graph

/-- The kind of the edge from a block to the block of an instruction, normal where there is none. -/
def kindTo (g : Graph) (x : BlockId) (i : Instruction) : LinkKind :=
  (((g.find? i).bind (g.edge? x)).map (·.kind)).getD .normal

/-- Whether the block of an instruction begins a function. -/
def beginsFunction (g : Graph) (i : Instruction) : Bool :=
  (g.find? i).any fun y => (g.block y).kind.isFunctionEntry

end Graph

namespace Recorder

open TraceFlow.Graph Profile

variable {s : Setup} {r r' r'' : Recorder} {a b c i j v : Instruction} {x y : BlockId}
  {g : Graph}

namespace Sound

/-- The block of an instruction is the one that the next step finds or creates. -/
theorem kindTo_eq (h : Sound s r) (x : BlockId) (i : Instruction) :
    r.graph.kindTo x i =
      ((r.graph.edge? x (r.graph.place (s.labelled i)).2).map (·.kind)).getD .normal := by
  unfold kindTo
  rw [← find?_labelled r.graph s i]
  cases hfind : r.graph.find? (s.labelled i) with
  | some y => rw [place_of_find?_some hfind, Option.bind_some]
  | none =>
    rw [place_of_find?_none hfind, Option.bind_none, h.mirrored.edge?_eq_none (Nat.le_refl _)]

/-- So whether it begins a function may be asked there. -/
theorem beginsFunction_eq (h : Sound s r) (i : Instruction) :
    r.graph.beginsFunction i =
      ((r.graph.place (s.labelled i)).1.block
        (r.graph.place (s.labelled i)).2).kind.isFunctionEntry := by
  unfold beginsFunction
  rw [← find?_labelled r.graph s i]
  cases hfind : r.graph.find? (s.labelled i) with
  | some y => rw [place_of_find?_some hfind, Option.any_some]
  | none =>
    have htarget : (r.graph.place (s.labelled i)).2 = r.graph.size := by
      rw [place_of_find?_none hfind]
    obtain ⟨ordinal, hblock⟩ := h.catalogued.block_place_new htarget
    rw [htarget, hblock, Option.any_none]
    rfl

/-- An edge drawn to the block of an instruction has the kind it is given, or the one it had. -/
theorem kind_link_place (h : Sound s r) (hx : x < r.graph.size) (kind : Option LinkKind)
    (hsame : SameEdges (r.graph.place (s.labelled i)).1 g) :
    ((g.link x (r.graph.place (s.labelled i)).2 kind 1).edge? x
        (r.graph.place (s.labelled i)).2).map (·.kind) =
      some (kind.getD (r.graph.kindTo x i)) := by
  have hsize : x < g.size := by
    rw [hsame.size]
    exact Nat.lt_of_lt_of_le hx (h.size_le_place _)
  rw [edge?_link hsize Nat.zero_lt_one, if_pos ⟨rfl, rfl⟩, hsame.edge?, edge?_place, h.kindTo_eq]
  rfl

end Sound

/-! ## Blocks that stay -/

/-- The edges to the block of `i`, and whether it begins a function, are the same in both states. -/
structure Untouched (i : Instruction) (r r' : Recorder) : Prop where
  kindTo : ∀ x, r'.graph.kindTo x i = r.graph.kindTo x i
  beginsFunction : r'.graph.beginsFunction i = r.graph.beginsFunction i

theorem Untouched.refl (i : Instruction) (r : Recorder) : Untouched i r r := ⟨fun _ => rfl, rfl⟩

/-- What two runs leave alone, both together do. -/
theorem Untouched.trans (h : Untouched i r r') (h' : Untouched i r' r'') : Untouched i r r'' :=
  ⟨fun x => (h'.kindTo x).trans (h.kindTo x), h'.beginsFunction.trans h.beginsFunction⟩

namespace Sound

/-- A step finds and creates the block of its own instruction only. -/
theorem find?_record_of_ne (h : Sound s r) (hj : j.pc < s.profile.beginAddress)
    (hne : j.pc = i.pc → j.opcode ≠ i.opcode) :
    (r.record s j).graph.find? i = r.graph.find? i := by
  cases hfind : r.graph.find? i with
  | some y => exact h.find?_record hj hfind
  | none =>
    cases hfound : (r.record s j).graph.find? i with
    | none => rfl
    | some y =>
      exfalso
      obtain ⟨hlt, hpc, hopcode⟩ := (h.record hj).catalogued.find?_eq_some_iff.1 hfound
      by_cases hold : y < r.graph.size
      · have hfixed := h.fixed_record j hold
        rw [Block.pc_of_fixed hfixed] at hpc
        rw [Block.opcode_of_fixed hfixed] at hopcode
        rw [h.catalogued.find?_eq_some_iff.2 ⟨hold, hpc, hopcode⟩] at hfind
        cases hfind
      · -- the only new block is that of the step
        have hy : (r.graph.place (s.labelled j)).2 = y := by
          rw [size_record] at hlt
          rcases h.catalogued.size_place (s.labelled j) with hsame | hnew
          · exact absurd (hsame.1 ▸ hlt) hold
          · rw [hnew.1] at hlt
            exact hnew.2.trans ((Nat.lt_succ_iff_lt_or_eq.1 hlt).resolve_left hold).symm
        subst hy
        have hat := (h.at_record hj).cursor
        obtain ⟨-, hpc', hopcode'⟩ := (h.record hj).catalogued.find?_eq_some_iff.1 hat
        exact hne (hpc'.symm.trans hpc) (hopcode'.symm.trans hopcode)

/-- A step leaves the blocks of other instructions alone. -/
theorem untouched_record (h : Sound s r) (hj : j.pc < s.profile.beginAddress)
    (hne : j.pc = i.pc → j.opcode ≠ i.opcode) : Untouched i r (r.record s j) := by
  have hfound := h.find?_record_of_ne hj hne
  cases hfind : r.graph.find? i with
  | none =>
    rw [hfind] at hfound
    refine ⟨fun x => ?_, ?_⟩
    · rw [Graph.kindTo, Graph.kindTo, hfound, hfind]
      rfl
    · rw [Graph.beginsFunction, Graph.beginsFunction, hfound, hfind]
      rfl
  | some y =>
    rw [hfind] at hfound
    have hdrawn := drawn_record s r j
    have hle := h.size_le_place (s.labelled j)
    have hold : y < r.graph.size := (h.catalogued.find?_eq_some_iff.1 hfind).1
    have hy : y ≠ (r.graph.place (s.labelled j)).2 := by
      rintro rfl
      have hcatalogued := (h.record hj).catalogued
      obtain ⟨-, hpc, hopcode⟩ := hcatalogued.find?_eq_some_iff.1 hfound
      obtain ⟨-, hpc', hopcode'⟩ := hcatalogued.find?_eq_some_iff.1 (h.at_record hj).cursor
      exact hne (hpc'.symm.trans hpc) (hopcode'.symm.trans hopcode)
    refine ⟨fun x => ?_, ?_⟩
    · have hedge := hdrawn.edge?_of_ne (x := x) (Nat.lt_of_lt_of_le h.cursor_lt hle)
        (Nat.lt_of_lt_of_le (h.origin_lt _ _ _) hle) hy
      have hplaced := edge?_place r.graph (s.labelled j) x y
      rw [Graph.kindTo, Graph.kindTo, hfound, hfind, Option.bind_some, Option.bind_some,
        hedge.trans hplaced]
    · have hkind := (hdrawn.kind_eq hy).trans (h.kind_place _ hold)
      rw [Graph.beginsFunction, Graph.beginsFunction, hfound, hfind, Option.any_some,
        Option.any_some, hkind]

/-- So does a run that does not execute the instruction. -/
theorem untouched_feedAll (h : Sound s r) {recs : List TraceRecord}
    (hne : ∀ j, .instruction j ∈ recs → j.pc = i.pc → j.opcode ≠ i.opcode) :
    Untouched i r (r.feedAll s recs) := by
  induction recs generalizing r with
  | nil => exact .refl i r
  | cons rec recs ih =>
    have hfirst : Untouched i r (r.feed s rec) := by
      cases rec with
      | interrupt id => exact ⟨fun _ => rfl, rfl⟩
      | instruction j =>
        rw [feed_instruction]
        split
        · exact ⟨fun _ => rfl, rfl⟩
        · rename_i hj
          exact h.untouched_record (Nat.lt_of_not_le hj) (hne j List.mem_cons_self)
    exact hfirst.trans (ih (h.feed rec) fun j hj => hne j (List.mem_cons_of_mem _ hj))

end Sound

/-! ## The step without an interrupt -/

/-- The step that led to this state left an edge of this kind from the block `x`, a block that
begins a function or not, and these frames. -/
structure Arrived (x : BlockId) (kind : LinkKind) (entry : Bool) (backtrace : List Frame)
    (r : Recorder) : Prop where
  kind : (r.graph.edge? x r.cursor).map (·.kind) = some kind
  entry : (r.graph.block r.cursor).kind.isFunctionEntry = entry
  backtrace : r.backtrace = backtrace

/-- The steps that led to two states left edges of one kind from the block `x`, blocks that both
begin a function or both do not, and the same frames. -/
structure SameStep (x : BlockId) (r r' : Recorder) : Prop where
  kind : (r.graph.edge? x r.cursor).map (·.kind) = (r'.graph.edge? x r'.cursor).map (·.kind)
  entry : (r.graph.block r.cursor).kind.isFunctionEntry =
    (r'.graph.block r'.cursor).kind.isFunctionEntry
  backtrace : r.backtrace = r'.backtrace

/-- Two steps are the same exactly when they left the same three things. -/
theorem Arrived.sameStep_iff {kind kind' : LinkKind} {entry entry' : Bool}
    {backtrace backtrace' : List Frame} (h : Arrived x kind entry backtrace r)
    (h' : Arrived x kind' entry' backtrace' r') :
    SameStep x r r' ↔ kind = kind' ∧ entry = entry' ∧ backtrace = backtrace' := by
  constructor
  · rintro ⟨hkind, hentry, hbacktrace⟩
    rw [h.kind, h'.kind, Option.some.injEq] at hkind
    exact ⟨hkind, h.entry.symm.trans (hentry.trans h'.entry),
      h.backtrace.symm.trans (hbacktrace.trans h'.backtrace)⟩
  · rintro ⟨rfl, rfl, rfl⟩
    exact ⟨h.kind.trans h'.kind.symm, h.entry.trans h'.entry.symm,
      h.backtrace.trans h'.backtrace.symm⟩

/-- How the step to an instruction is classified by the block executed last. -/
def transferTo (s : Setup) (r : Recorder) (i : Instruction) : Transfer :=
  s.profile.transfer (r.graph.block r.cursor).lastOpcode
    (displacement (r.graph.block r.cursor).pc i.pc)

/-- The kind of the edge that the step to an instruction draws or leaves. -/
def kindOfStep (s : Setup) (r : Recorder) (i : Instruction) : LinkKind :=
  match r.transferTo s i with
  | .notTaken => .notTaken
  | .call => .callTaken
  | .branch =>
    if (r.graph.block r.cursor).takenFound then r.graph.kindTo r.cursor i else .taken
  | .plain => r.graph.kindTo r.cursor i

namespace At

/-- A step is classified by the block at the cursor, as it was before the step. -/
theorem transfer_arrival (h : At s r a) (i : Instruction) :
    s.profile.transfer (arrival s r i).opcode (arrival s r i).offset = r.transferTo s i := by
  rw [transferTo, h.pc_cursor, h.lastOpcode_cursor, h.arrival_eq]

/-- A step that draws its own edge leaves it with the kind that the step has. -/
theorem kind_follow (h : At s r a) (i : Instruction) :
    ((follow s.profile (place s r i).1 (arrival s r i)).graph.edge? r.cursor
        (r.graph.place (s.labelled i)).2).map (·.kind) = some (r.kindOfStep s i) := by
  have hmark : ((place s r i).1.graph.block (place s r i).1.cursor).takenFound =
      (r.graph.block r.cursor).takenFound := by
    obtain ⟨ordinal, hblock⟩ := h.sound.catalogued.block_place (s.labelled i) h.sound.cursor_lt
    exact (congrArg Block.takenFound hblock :)
  have hlink := fun {g} => h.sound.kind_link_place (g := g) (i := i) h.sound.cursor_lt
  unfold follow kindOfStep
  simp only [h.transfer_arrival i, hmark]
  cases r.transferTo s i with
  | notTaken => exact hlink (some .notTaken) (.refl _)
  | call =>
    have hsame := sameEdges_call (r := (place s r i).1) (a := arrival s r i)
    exact hlink (some .callTaken) hsame
  | branch =>
    cases (r.graph.block r.cursor).takenFound with
    | true => exact hlink none (.refl _)
    | false => exact hlink (some .taken) (sameEdges_marked true _ _)
  | plain => exact hlink none (.refl _)

/-- Only a call makes its target the entry of a function. -/
theorem entry_follow (h : At s r a) (i : Instruction) :
    ((follow s.profile (place s r i).1 (arrival s r i)).graph.block
        (r.graph.place (s.labelled i)).2).kind.isFunctionEntry =
      (r.graph.beginsFunction i || r.transferTo s i = .call) := by
  have htarget := h.sound.target_lt i
  rw [h.sound.beginsFunction_eq]
  unfold follow
  simp only [h.transfer_arrival i]
  cases r.transferTo s i with
  | notTaken => simp [kind_link, place]
  | call =>
    have hentry := isFunctionEntry_called
      ((place s r i).1.graph.block (r.graph.place (s.labelled i)).2)
    rw [kind_link, kind_foundTaken, block_modify, if_pos ⟨rfl, htarget⟩]
    exact hentry.trans (Bool.or_true _).symm
  | branch =>
    simp only
    split
    · simp [kind_link, place]
    · simp [kind_link, kind_foundTaken, place]
  | plain => simp [kind_link, place]

/-- What a step does that ends no call and leads to no vector. -/
theorem follows (h : At s r a) (hp : s.profile.Regular) (hi : i.pc < s.profile.beginAddress)
    (hvector : s.profile.isInterruptVector i.pc = false) (hcloses : ¬Closes s.profile a i) :
    Arrived r.cursor (r.kindOfStep s i) (r.graph.beginsFunction i || r.transferTo s i = .call)
      (if r.transferTo s i = .call then ⟨r.cursor, .past s.profile.call.offset⟩ :: r.backtrace
        else r.backtrace)
      (r.record s i) := by
  have hsettled := h.settled_of_not_closes hp hi hcloses
  have henters := h.enters_of_not_vector hvector
  have hgraph := Sound.graph_record_follow hsettled henters
  refine ⟨?_, ?_, ?_⟩
  · rw [cursor_record, hgraph]
    exact h.kind_follow i
  · rw [cursor_record, hgraph]
    exact h.entry_follow i
  · simp [backtrace_record, henters, hsettled, h.transfer_arrival i]

end At

/-! ## Handlers -/

/-- The state after an interrupt marker and the first instruction of a handler. -/
def interrupted (s : Setup) (r : Recorder) (id : Nat) (v : Instruction) : Recorder :=
  r.feedAll s [.interrupt id, .instruction v]

/-- A marker and the first instruction of a handler are two steps. -/
theorem interrupted_eq (r : Recorder) (id : Nat) (hv : v.pc < s.profile.beginAddress) :
    r.interrupted s id v = (r.feed s (.interrupt id)).record s v := by
  rw [interrupted, feedAll_cons, feedAll_cons, feedAll_nil, feed_of_lt _ hv]

/-- The records `run` lead a handler that was entered in the state `r` to its end, from where it
returns to `i`: on the way nothing is taken away that was pending when it was entered, at the end
nothing else is left pending, and a return is executed last, not right before `i`. -/
structure Handler (s : Setup) (r : Recorder) (run : List TraceRecord) (i : Instruction) :
    Prop where
  deep : ∀ q, q <+: run → r.backtrace.length ≤ (r.feedAll s q).backtrace.length
  level : (r.feedAll s run).backtrace.length = r.backtrace.length
  ret : s.profile.ret.contains
    ((r.feedAll s run).graph.block (r.feedAll s run).cursor).lastOpcode = true
  taken : i.pc ≠
    ((r.feedAll s run).graph.block (r.feedAll s run).cursor).pc + s.profile.ret.size

/-- A handler gives back what was pending when it was entered. -/
theorem Handler.backtrace {run : List TraceRecord} (h : Handler s r run i) :
    (r.feedAll s run).backtrace = r.backtrace :=
  backtrace_feedAll s h.deep h.level

namespace At

/-- An interrupt marker does not move. -/
theorem announced (h : At s r a) (id : Nat) : At s (r.feed s (.interrupt id)) a :=
  ⟨h.sound.feed _, h.in_range, h.cursor⟩

/-- An interrupt that was announced is entered at a vector, whatever was executed last. -/
theorem enters_announced (h : At s r a) (hvector : s.profile.isInterruptVector v.pc = true)
    (id : Nat) : (arrival s (r.feed s (.interrupt id)) v).enters = true := by
  rw [(h.announced id).arrival_eq]
  unfold Profile.entersHandler
  rw [hvector]
  rfl

/-- An interrupt after an instruction that is no return and no restart returns anywhere. -/
theorem backtrace_interrupted (h : At s r a) (hret : s.profile.ret.contains a.opcode = false)
    (hentry : s.profile.interruptEntry.contains a.opcode = false)
    (hv : v.pc < s.profile.beginAddress) (hvector : s.profile.isInterruptVector v.pc = true)
    (id : Nat) :
    (r.interrupted s id v).backtrace = ⟨r.cursor, .anywhere⟩ :: r.backtrace := by
  have harrival := (h.announced id).arrival_eq v
  have hopcode : (arrival s (r.feed s (.interrupt id)) v).opcode = a.opcode := by rw [harrival]
  have hsettled : (arrival s (r.feed s (.interrupt id)) v).settled = .none := by
    rw [harrival]
    unfold Profile.returns
    simp [hret]
  have hresume : (arrival s (r.feed s (.interrupt id)) v).resume s.profile = .anywhere := by
    simp [Arrival.resume, hsettled, hopcode, hentry]
  have horigin : (arrival s (r.feed s (.interrupt id)) v).origin r.cursor = r.cursor := by
    rw [Arrival.origin, hsettled]
  rw [interrupted_eq r id hv, backtrace_record, if_pos (h.enters_announced hvector id),
    if_pos hsettled, hresume]
  exact congrArg (fun x => ⟨x, .anywhere⟩ :: r.backtrace) horigin

/-- A return to anywhere leads on from the site, without a kind. -/
theorem resumes (h : At s r c) (hp : s.profile.Regular) (hi : i.pc < s.profile.beginAddress)
    (hvector : s.profile.isInterruptVector i.pc = false) (hcloses : Closes s.profile c i)
    {rest : List Frame} (hbacktrace : r.backtrace = ⟨x, .anywhere⟩ :: rest) :
    Arrived x (r.graph.kindTo x i) (r.graph.beginsFunction i) rest (r.record s i) := by
  have hsettled : (arrival s r i).settled = .matched ⟨x, .anywhere⟩ := by
    rw [h.arrival_eq, if_pos ((hp.returns_iff h.in_range hi).2 hcloses), hbacktrace]
    simp [settle, belongs]
  have henters := h.enters_of_not_vector hvector
  have hx : x < r.graph.size := h.sound.sites_lt ⟨x, .anywhere⟩ (hbacktrace ▸ List.mem_cons_self)
  have hgraph := Sound.graph_record_matched hsettled henters
  refine ⟨?_, ?_, ?_⟩
  · rw [cursor_record, hgraph]
    exact h.sound.kind_link_place hx none (.refl _)
  · rw [cursor_record, hgraph, kind_link, h.sound.beginsFunction_eq]
  · simp [backtrace_record, henters, hsettled, hbacktrace]

/-- Behind a handler the instruction that it came upon is left along an edge without a kind, and
nothing more is pending than before. -/
theorem resumed (h : At s r a) (hp : s.profile.Regular)
    (hret : s.profile.ret.contains a.opcode = false)
    (hentry : s.profile.interruptEntry.contains a.opcode = false)
    (hv : v.pc < s.profile.beginAddress) (hentered : s.profile.isInterruptVector v.pc = true)
    (hi : i.pc < s.profile.beginAddress) (hvector : s.profile.isInterruptVector i.pc = false)
    (id : Nat) {run : List TraceRecord} (hrun : Handler s (r.interrupted s id v) run i) :
    let r' := (r.interrupted s id v).feedAll s run
    Arrived r.cursor (r'.graph.kindTo r.cursor i) (r'.graph.beginsFunction i) r.backtrace
      (r'.record s i) := by
  intro r'
  have hpushed := h.backtrace_interrupted hret hentry hv hentered id
  have hsound : Sound s r' := (h.sound.feedAll _).feedAll run
  obtain ⟨c, hat⟩ := hsound.at_cursor hrun.ret
  have hcloses : Closes s.profile c i := by
    refine ⟨?_, ?_⟩
    · rw [← hat.lastOpcode_cursor]
      exact hrun.ret
    · rw [← hat.pc_cursor]
      exact hrun.taken
  exact hat.resumes hp hi hvector hcloses (hrun.backtrace.trans hpushed)

end At

/-! ## The step that a handler came upon -/

/-- What a step from `r` to `i` does when a handler came upon it that leaves the state `r'`. The
edge keeps the kind that it has by then, nothing is pushed, and the step looks as it would have
looked without the handler only if it is no taken call and there was nothing to change. -/
structure Resumed (s : Setup) (r r' : Recorder) (i : Instruction) : Prop where
  arrived : Arrived r.cursor (r'.graph.kindTo r.cursor i) (r'.graph.beginsFunction i) r.backtrace
    (r'.feed s (.instruction i))
  same_iff : SameStep r.cursor (r.feed s (.instruction i)) (r'.feed s (.instruction i)) ↔
    r.transferTo s i ≠ .call ∧ r'.graph.kindTo r.cursor i = r.kindOfStep s i ∧
      r'.graph.beginsFunction i = r.graph.beginsFunction i

/-- **An interrupt hides the step that it comes upon.** Behind its handler a call or a branch is not
classified: a call that was taken is never seen, and of a branch only what the graph showed already.
The second part is for a handler that does not execute the instruction that it returns to. -/
theorem interrupted_step (hprofile : s.profile = .gameBoy) (hr : Reached s r) {flow : Flow}
    (hflow : flow = .call ∨ flow = .jump ∨ flow = .jr)
    (hclass : (s.profile.opcodeClass flow).contains (r.graph.block r.cursor).lastOpcode = true)
    (hi : i.pc < s.profile.beginAddress) (hvector : s.profile.isInterruptVector i.pc = false)
    (id : Nat) (hv : s.profile.isInterruptVector v.pc = true) {run : List TraceRecord}
    (hrun : Handler s (r.interrupted s id v) run i) :
    let r' := (r.interrupted s id v).feedAll s run
    Resumed s r r' i ∧
      ((∀ j, .instruction j ∈ .instruction v :: run → j.pc = i.pc → j.opcode ≠ i.opcode) →
        (SameStep r.cursor (r.feed s (.instruction i)) (r'.feed s (.instruction i)) ↔
          r.transferTo s i ≠ .call ∧ r.graph.kindTo r.cursor i = r.kindOfStep s i)) := by
  intro r'
  have hp : s.profile.Regular := hprofile ▸ gameBoy_regular
  have hrange : v.pc < s.profile.beginAddress := by
    rw [hprofile] at hv ⊢
    exact gameBoy_vector_lt hv
  obtain ⟨a, hat⟩ := hr.sound.at_cursor hclass
  rw [hat.lastOpcode_cursor] at hclass
  have hret : s.profile.ret.contains a.opcode = false :=
    hp.contains_eq_false .ret hclass (by rcases hflow with rfl | rfl | rfl <;> decide)
  have hentry : s.profile.interruptEntry.contains a.opcode = false :=
    hp.contains_eq_false .interruptEntry hclass
      (by rcases hflow with rfl | rfl | rfl <;> decide)
  have hopen : ¬Closes s.profile a i := by
    intro hcloses
    rw [hcloses.1] at hret
    cases hret
  -- the step by itself, and behind the handler
  have hdirect := hat.follows hp hi hvector hopen
  have hresumed : Arrived r.cursor (r'.graph.kindTo r.cursor i) (r'.graph.beginsFunction i)
      r.backtrace (r'.record s i) :=
    hat.resumed hp hret hentry hrange hv hi hvector id hrun
  rw [← feed_of_lt _ hi] at hdirect hresumed
  have hsame : SameStep r.cursor (r.feed s (.instruction i)) (r'.feed s (.instruction i)) ↔
      r.transferTo s i ≠ .call ∧ r'.graph.kindTo r.cursor i = r.kindOfStep s i ∧
        r'.graph.beginsFunction i = r.graph.beginsFunction i := by
    rw [hdirect.sameStep_iff hresumed]
    by_cases hcall : r.transferTo s i = .call
    · simp [hcall]
    · simp [hcall, eq_comm]
  refine ⟨⟨hresumed, hsame⟩, fun hne => hsame.trans ?_⟩
  have huntouched : Untouched i r (r.feedAll s (.interrupt id :: .instruction v :: run)) :=
    hr.sound.untouched_feedAll fun j hj => hne j (by simpa using hj)
  have hkept : r'.graph.kindTo r.cursor i = r.graph.kindTo r.cursor i :=
    huntouched.kindTo r.cursor
  have hstays : r'.graph.beginsFunction i = r.graph.beginsFunction i := huntouched.beginsFunction
  rw [hkept]
  exact and_congr_right fun _ => and_iff_left hstays

/-- A taken branch and the handler that comes upon it, which calls a function of its own. -/
theorem interrupted_step_branch :
    let s : Setup := { profile := .gameBoy }
    let branch : Instruction := ⟨0x100, [0x20], [0x0E], none⟩
    let landing : Instruction := ⟨0x110, [0x00], [], none⟩
    let vector : Instruction := ⟨0x40, [0xCD], [0x00, 0x03], none⟩
    let leave : Instruction := ⟨0x300, [0xC9], [], none⟩
    let back : Instruction := ⟨0x43, [0xD9], [], none⟩
    let r := (Recorder.new s.profile).feed s (.instruction branch)
    let run : List TraceRecord := [.instruction leave, .instruction back]
    let r' := (r.interrupted s 1 vector).feedAll s run
    s.profile = .gameBoy ∧ Reached s r ∧
      (s.profile.opcodeClass .jr).contains (r.graph.block r.cursor).lastOpcode = true ∧
      landing.pc < s.profile.beginAddress ∧ s.profile.isInterruptVector landing.pc = false ∧
      s.profile.isInterruptVector vector.pc = true ∧
      Handler s (r.interrupted s 1 vector) run landing ∧ Resumed s r r' landing ∧
      ¬SameStep r.cursor (r.feed s (.instruction landing)) (r'.feed s (.instruction landing)) := by
  intro s branch landing vector leave back r run r'
  have hreached : Reached s r := Reached.new.feed _
  have hclass :
      (s.profile.opcodeClass .jr).contains (r.graph.block r.cursor).lastOpcode = true := by
    decide +kernel
  have hrun : Handler s (r.interrupted s 1 vector) run landing := by
    refine ⟨fun q hq => ?_, by decide +kernel, by decide +kernel, by decide +kernel⟩
    have hdeep : ∀ n, n < 3 → (r.interrupted s 1 vector).backtrace.length ≤
        ((r.interrupted s 1 vector).feedAll s (run.take n)).backtrace.length := by
      decide +kernel
    rw [List.prefix_iff_eq_take.1 hq]
    exact hdeep _ (Nat.lt_succ_of_le hq.length_le)
  have hresult := interrupted_step rfl hreached (.inr (.inr rfl)) hclass (by decide) (by decide) 1
    (by decide) hrun
  refine ⟨rfl, hreached, hclass, by decide, by decide, by decide, hrun, hresult.1, ?_⟩
  have hapart : ∀ j, .instruction j ∈ .instruction vector :: run → j.pc = landing.pc →
      j.opcode ≠ landing.opcode := by
    intro j hj hpc
    have hpcs : j.pc ∈ [vector.pc, leave.pc, back.pc] := by
      simp only [run, List.mem_cons, TraceRecord.instruction.injEq, List.not_mem_nil,
        or_false] at hj
      rcases hj with rfl | rfl | rfl <;> decide
    rw [hpc] at hpcs
    exact absurd hpcs (by decide)
  rw [hresult.2 hapart]
  decide +kernel

/-- A taken call that an interrupt comes upon is not seen: no edge of a call, no frame. -/
theorem interrupted_call_hidden :
    let s : Setup := { profile := .gameBoy }
    let call : Instruction := ⟨0x100, [0xCD], [0x00, 0x02], none⟩
    let callee : Instruction := ⟨0x200, [0xC9], [], none⟩
    let vector : Instruction := ⟨0x40, [0xD9], [], none⟩
    let r := (Recorder.new s.profile).feed s (.instruction call)
    let r' := r.interrupted s 0x40 vector
    Reached s r ∧ s.profile.call.contains (r.graph.block r.cursor).lastOpcode = true ∧
      callee.pc < s.profile.beginAddress ∧ s.profile.isInterruptVector callee.pc = false ∧
      s.profile.isInterruptVector vector.pc = true ∧ Handler s r' [] callee ∧
      ¬SameStep r.cursor (r.feed s (.instruction callee)) (r'.feed s (.instruction callee)) := by
  intro s call callee vector r r'
  have hrun : Handler s r' [] callee := by
    refine ⟨fun q hq => ?_, by decide +kernel, by decide +kernel, by decide +kernel⟩
    exact Nat.le_of_eq (by rw [List.prefix_nil.1 hq, feedAll_nil])
  refine ⟨Reached.new.feed _, by decide +kernel, by decide, by decide, by decide, hrun, ?_⟩
  intro hsame
  have hbacktrace := hsame.backtrace
  revert hbacktrace
  decide +kernel

end Recorder

end TraceFlow
