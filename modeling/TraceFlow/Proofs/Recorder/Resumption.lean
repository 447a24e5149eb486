/-
TraceFlow.Proofs.Recorder.Resumption — where execution goes on behind an
interrupt handler.

Between two instructions that are no branches nothing but a traversal is at
stake, so here an interrupt is expected to leave no trace at all.
`Resumption` is the form of such a step: it adds one traversal of the edge
from a given block, leaves every other edge as it was, reports nothing and
leaves given frames pending. `Sound.resumption` gives it for every step
that draws an edge without a kind and misses nothing, and four lemmas bring
the cases to it:

* `At.resumption_plain`, a step that is not classified;
* `At.resumption_fallThrough`, a return that is not taken;
* `At.resumption_matched` and `At.resumption_anywhere`, a return that ends
  a frame, in general and for the frame of a hardware interrupt.

`Unwound` is a handler that gives back what was pending. It is weaker than
`Handler`, as it says nothing of where the handler returns to: the frame
that an interrupt leaves at a plain instruction accepts every landing.
`interrupt_transparent` puts the run with the handler beside the one
without; both are resumptions of the same edge with the same frames. The
return must not fall through, which the claim says of the handler too, and
the sum in that condition is taken in words, as the recorder takes it.

The last part is the same question for a return. An interrupt that comes
upon one has it counted as taken before anyone knows, and the frame it
would end is pushed again. When the return is not taken after all, the
handler's own return ends that frame. `FallenThrough` states both runs, at
a vector and elsewhere, and `interrupted_return` proves it; the equivalence
in it says exactly when nothing is lost: when nothing was pending.
-/
import TraceFlow.Proofs.Recorder.Interrupts

namespace TraceFlow.Recorder

open TraceFlow.Graph Profile

variable {s : Setup} {r r' : Recorder} {a c i v : Instruction} {x : BlockId} {f : Frame}
  {rest frames : List Frame}

/-! ## A step that only goes on -/

/-- The step from `r` to the instruction `i` leads to `r'` and adds one traversal of the edge from
the block `x` to the block of `i`, which keeps its kind and is normal if it is new. Every other edge
stays as it was, nothing is reported, and `frames` are pending. Counts stay at their limit. -/
structure Resumption (s : Setup) (x : BlockId) (frames : List Frame) (i : Instruction)
    (r r' : Recorder) : Prop where
  cursor : r'.graph.find? i = some r'.cursor
  backtrace : r'.backtrace = frames
  diagnostics : r'.diagnostics = r.diagnostics
  edge : r'.graph.edge? x r'.cursor =
    some ⟨r.graph.kindTo x i, saturate (r.graph.traversals x r'.cursor + 1)⟩
  others : ∀ y z, (y = x → z ≠ r'.cursor) → r'.graph.edge? y z = r.graph.edge? y z

/-- An edge that is passed once more without a kind keeps the one it has. -/
theorem Sound.raised_place (h : Sound s r) (x : BlockId) (i : Instruction) :
    Edge.raised (r.graph.edge? x (r.graph.place (s.labelled i)).2) none 1 =
      ⟨r.graph.kindTo x i,
        saturate (r.graph.traversals x (r.graph.place (s.labelled i)).2 + 1)⟩ := by
  rw [h.kindTo_eq, traversals, Edge.raised]
  cases r.graph.edge? x (r.graph.place (s.labelled i)).2 <;> rfl

/-- A step that misses no return reports nothing. -/
theorem diagnostics_record_of_ne_missed (hsettled : (arrival s r i).settled ≠ .missed) :
    (r.record s i).diagnostics = r.diagnostics := by
  rw [record_eq_move, diagnostics_move]
  unfold settleReturn
  split
  · rfl
  · rfl
  · contradiction

/-- A step that draws an edge without a kind only goes on. -/
theorem Sound.resumption (h : Sound s r) (hi : i.pc < s.profile.beginAddress)
    (hx : x < r.graph.size) (hsettled : (arrival s r i).settled ≠ .missed)
    (hgraph : (r.record s i).graph =
      (r.graph.place (s.labelled i)).1.link x (r.graph.place (s.labelled i)).2 none 1)
    (hframes : (r.record s i).backtrace = frames) :
    Resumption s x frames i r (r.record s i) := by
  have hsize := Nat.lt_of_lt_of_le hx (h.size_le_place (s.labelled i))
  have hedge : ∀ y z, (r.record s i).graph.edge? y z =
      if y = x ∧ z = (r.graph.place (s.labelled i)).2 then
        some ⟨r.graph.kindTo x i,
          saturate (r.graph.traversals x (r.graph.place (s.labelled i)).2 + 1)⟩
      else r.graph.edge? y z := by
    intro y z
    rw [hgraph, edge?_link hsize Nat.zero_lt_one, edge?_place, edge?_place, h.raised_place]
  refine ⟨(h.at_record hi).cursor, hframes, diagnostics_record_of_ne_missed hsettled, ?_, ?_⟩
  · rw [cursor_record, hedge, if_pos ⟨rfl, rfl⟩]
  · intro y z hother
    rw [hedge, if_neg fun e => hother e.1 e.2]

namespace At

/-- An instruction that is in none of the three classes is not classified. -/
theorem transferTo_eq_plain (h : At s r a) (hcall : s.profile.call.contains a.opcode = false)
    (hjump : s.profile.jump.contains a.opcode = false)
    (hjr : s.profile.jr.contains a.opcode = false) : r.transferTo s i = .plain := by
  simp [transferTo, Profile.transfer, h.lastOpcode_cursor, hcall, hjump, hjr]

/-- A step that is no call, no branch and no return goes on from the instruction before. -/
theorem resumption_plain (h : At s r a) (hi : i.pc < s.profile.beginAddress)
    (hvector : s.profile.isInterruptVector i.pc = false)
    (hreturns : s.profile.returns a.opcode (displacement a.pc i.pc) = false)
    (htransfer : r.transferTo s i = .plain) :
    Resumption s r.cursor r.backtrace i r (r.record s i) := by
  have hsettled : (arrival s r i).settled = .none := by
    simp [h.arrival_eq, hreturns]
  have henters := h.enters_of_not_vector hvector
  refine h.sound.resumption hi h.sound.cursor_lt (by simp [hsettled]) ?_ ?_
  · rw [Sound.graph_record_follow hsettled henters]
    unfold follow
    simp only [h.transfer_arrival i, htransfer]
    rfl
  · simp [backtrace_record, henters, hsettled, h.transfer_arrival i, htransfer]

/-- So does a return that falls through. -/
theorem resumption_fallThrough (h : At s r a) (hp : s.profile.Regular)
    (hret : s.profile.ret.contains a.opcode = true) (hi : i.pc < s.profile.beginAddress)
    (hvector : s.profile.isInterruptVector i.pc = false)
    (hnext : i.pc = a.pc + s.profile.ret.size) :
    Resumption s r.cursor r.backtrace i r (r.record s i) := by
  have hclass : (s.profile.opcodeClass .ret).contains a.opcode = true := hret
  have hother : ∀ flow, flow ≠ .ret → (s.profile.opcodeClass flow).contains a.opcode = false :=
    fun flow hne => hp.contains_eq_false flow hclass hne
  have hopen : ¬s.profile.returns a.opcode (displacement a.pc i.pc) = true := by
    rw [hp.returns_iff h.in_range hi]
    exact fun hclosed => hclosed.2 hnext
  exact h.resumption_plain hi hvector (Bool.eq_false_iff.2 hopen)
    (h.transferTo_eq_plain (hother .call (by decide)) (hother .jump (by decide))
      (hother .jr (by decide)))

/-- A return that belongs to the innermost frame goes on from its site. -/
theorem resumption_matched (h : At s r c) (hi : i.pc < s.profile.beginAddress)
    (hvector : s.profile.isInterruptVector i.pc = false)
    (hreturns : s.profile.returns c.opcode (displacement c.pc i.pc) = true)
    (hbacktrace : r.backtrace = f :: rest) (hbelongs : belongs s.profile r.graph i.pc f = true) :
    Resumption s f.site rest i r (r.record s i) := by
  have hsettled : (arrival s r i).settled = .matched f := by
    simp [h.arrival_eq, hreturns, hbacktrace, settle, hbelongs]
  have henters := h.enters_of_not_vector hvector
  have hsite : f.site < r.graph.size := h.sound.sites_lt f (hbacktrace ▸ List.mem_cons_self)
  refine h.sound.resumption hi hsite (by simp [hsettled])
    (Sound.graph_record_matched hsettled henters) ?_
  simp [backtrace_record, henters, hsettled, hbacktrace]

/-- A return to anywhere goes on from the site. -/
theorem resumption_anywhere (h : At s r c) (hi : i.pc < s.profile.beginAddress)
    (hvector : s.profile.isInterruptVector i.pc = false)
    (hreturns : s.profile.returns c.opcode (displacement c.pc i.pc) = true)
    (hbacktrace : r.backtrace = ⟨x, .anywhere⟩ :: rest) :
    Resumption s x rest i r (r.record s i) :=
  h.resumption_matched hi hvector hreturns hbacktrace rfl

end At

/-! ## Handlers that unwind -/

/-- The records `run` lead a handler that was entered in the state `r` to its end: on the way
nothing is taken away that was pending when it was entered, at the end nothing else is left pending,
and a return is executed last. A `Handler` is that with a return that is taken. -/
structure Unwound (s : Setup) (r : Recorder) (run : List TraceRecord) : Prop where
  deep : ∀ q, q <+: run → r.backtrace.length ≤ (r.feedAll s q).backtrace.length
  level : (r.feedAll s run).backtrace.length = r.backtrace.length
  ret : s.profile.ret.contains
    ((r.feedAll s run).graph.block (r.feedAll s run).cursor).lastOpcode = true

namespace Unwound

variable {run : List TraceRecord}

/-- A handler that unwinds gives back what was pending when it was entered. -/
theorem backtrace (h : Unwound s r run) : (r.feedAll s run).backtrace = r.backtrace :=
  backtrace_feedAll s h.deep h.level

end Unwound

/-- A run stays above a depth if it does after each number of its records. -/
theorem unwound_of_take {run : List TraceRecord}
    (hdeep : ∀ n, n ≤ run.length →
      r.backtrace.length ≤ (r.feedAll s (run.take n)).backtrace.length)
    (hlevel : (r.feedAll s run).backtrace.length = r.backtrace.length)
    (hret : s.profile.ret.contains
      ((r.feedAll s run).graph.block (r.feedAll s run).cursor).lastOpcode = true) :
    Unwound s r run := by
  refine ⟨fun q hq => ?_, hlevel, hret⟩
  rw [List.prefix_iff_eq_take.1 hq]
  exact hdeep _ hq.length_le

/-! ## Interrupts between plain instructions -/

/-- **An interrupt at a plain instruction leaves no trace behind its handler.** Whatever the handler
does, when it has returned the step to the next instruction draws the edge and leaves the frames
that it would have without the interrupt. The handler's return must not fall through; addresses are
words of 64 bits. -/
theorem interrupt_transparent (hr : Reached s r) (hstart : r.cursor ≠ r.start)
    (hclass : s.profile.classify (r.graph.block r.cursor).lastOpcode = none)
    (hi : i.pc < s.profile.beginAddress) (hvector : s.profile.isInterruptVector i.pc = false)
    (id : Nat) (hv : v.pc < s.profile.beginAddress)
    (hentered : s.profile.isInterruptVector v.pc = true) {run : List TraceRecord}
    (hrun : Unwound s (r.interrupted s id v) run)
    (htaken : i.pc ≠ ((((r.interrupted s id v).feedAll s run).graph.block
      ((r.interrupted s id v).feedAll s run).cursor).pc + s.profile.ret.size) % wordSize 64) :
    let r' := (r.interrupted s id v).feedAll s run
    Resumption s r.cursor r.backtrace i r' (r'.feed s (.instruction i)) ∧
      Resumption s r.cursor r.backtrace i r (r.feed s (.instruction i)) := by
  intro r'
  obtain ⟨a, hat⟩ := hr.sound.at_of_ne_start hstart
  have hnone : ∀ flow, (s.profile.opcodeClass flow).contains a.opcode = false := by
    rw [← Regular.classify_eq_none_iff, ← hat.lastOpcode_cursor]
    exact hclass
  have hsound : Sound s r' := (hr.sound.feedAll _).feedAll run
  obtain ⟨c, hat'⟩ := hsound.at_cursor hrun.ret
  have hpushed := hat.backtrace_interrupted (hnone .ret) (hnone .interruptEntry) hv hentered id
  have hreturns : s.profile.returns c.opcode (displacement c.pc i.pc) = true := by
    have hret := hrun.ret
    rw [hat'.lastOpcode_cursor] at hret
    rw [hat'.pc_cursor] at htaken
    rw [Profile.returns, hret, Bool.true_and, bne_iff_ne]
    exact fun hoffset => htaken ((displacement_eq_offset_iff_word hi).1 hoffset)
  rw [feed_of_lt _ hi, feed_of_lt _ hi]
  refine ⟨hat'.resumption_anywhere hi hvector hreturns (hrun.backtrace.trans hpushed),
    hat.resumption_plain hi hvector ?_
      (hat.transferTo_eq_plain (hnone .call) (hnone .jump) (hnone .jr))⟩
  have hret : s.profile.ret.contains a.opcode = false := hnone .ret
  simp [Profile.returns, hret]

/-- A handler that calls a function, in which another interrupt arrives. -/
theorem interrupt_transparent_nested :
    let s : Setup := { profile := .gameBoy }
    let plain : Instruction := ⟨0x150, [0x00], [], none⟩
    let next : Instruction := ⟨0x151, [0x00], [], none⟩
    let vector : Instruction := ⟨0x40, [0xCD], [0x00, 0x03], none⟩
    let inner : Instruction := ⟨0x300, [0x00], [], none⟩
    let other : Instruction := ⟨0x50, [0xD9], [], none⟩
    let leave : Instruction := ⟨0x301, [0xC9], [], none⟩
    let back : Instruction := ⟨0x43, [0xD9], [], none⟩
    let r := (Recorder.new s.profile).feed s (.instruction plain)
    let run : List TraceRecord :=
      [.instruction inner, .interrupt 2, .instruction other, .instruction leave, .instruction back]
    let r' := (r.interrupted s 1 vector).feedAll s run
    Reached s r ∧ r.cursor ≠ r.start ∧
      s.profile.classify (r.graph.block r.cursor).lastOpcode = none ∧
      next.pc < s.profile.beginAddress ∧ s.profile.isInterruptVector next.pc = false ∧
      vector.pc < s.profile.beginAddress ∧ s.profile.isInterruptVector vector.pc = true ∧
      Unwound s (r.interrupted s 1 vector) run ∧
      next.pc ≠ ((r'.graph.block r'.cursor).pc + s.profile.ret.size) % wordSize 64 ∧
      Resumption s r.cursor r.backtrace next r' (r'.feed s (.instruction next)) ∧
      Resumption s r.cursor r.backtrace next r (r.feed s (.instruction next)) := by
  intro s plain next vector inner other leave back r run r'
  have hreached : Reached s r := Reached.new.feed _
  have hstart : r.cursor ≠ r.start := by decide +kernel
  have hclass : s.profile.classify (r.graph.block r.cursor).lastOpcode = none := by
    decide +kernel
  have hrun : Unwound s (r.interrupted s 1 vector) run :=
    unwound_of_take (by decide +kernel) (by decide +kernel) (by decide +kernel)
  have htaken : next.pc ≠ ((r'.graph.block r'.cursor).pc + s.profile.ret.size) % wordSize 64 := by
    decide +kernel
  have hresult := interrupt_transparent hreached hstart hclass (by decide) (by decide) 1 (by decide)
    (by decide) hrun htaken
  exact ⟨hreached, hstart, hclass, by decide, by decide, by decide, by decide, hrun, htaken,
    hresult.1, hresult.2⟩

/-! ## Interrupts upon returns -/

namespace At

/-- A return that is taken to a vector enters the handler there. -/
theorem enters_of_returns (h : At s r c) (hp : s.profile.Regular)
    (hret : s.profile.ret.contains c.opcode = true)
    (hvector : s.profile.isInterruptVector i.pc = true)
    (hreturns : s.profile.returns c.opcode (displacement c.pc i.pc) = true) :
    (arrival s r i).enters = true := by
  have hclass : s.profile.classify c.opcode = some .ret := hp.classify_eq_some_iff.2 hret
  have hoffset : (displacement c.pc i.pc != s.profile.ret.offset) = true := by
    rw [Profile.returns, Bool.and_eq_true] at hreturns
    exact hreturns.2
  rw [h.arrival_eq]
  simp [entersHandler, hvector, hclass, hoffset]

/-- A handler that is entered from a return stands for the frame that the return would end. If
nothing is pending, or if the vector is right behind the return, it returns anywhere instead. -/
theorem backtrace_entered (h : At s r c) (hp : s.profile.Regular)
    (hret : s.profile.ret.contains c.opcode = true) (hi : i.pc < s.profile.beginAddress)
    (hvector : s.profile.isInterruptVector i.pc = true)
    (henters : (arrival s r i).enters = true) :
    (r.record s i).backtrace =
      if i.pc = c.pc + s.profile.ret.size ∨ r.backtrace = [] then
        ⟨r.cursor, .anywhere⟩ :: r.backtrace
      else r.backtrace := by
  have hclass : (s.profile.opcodeClass .ret).contains c.opcode = true := hret
  have hentry : s.profile.interruptEntry.contains c.opcode = false :=
    hp.contains_eq_false .interruptEntry hclass (by decide)
  have hopcode : (arrival s r i).opcode = c.opcode := by rw [h.arrival_eq]
  have hreturns : s.profile.returns c.opcode (displacement c.pc i.pc) = true ↔
      s.profile.ret.contains c.opcode = true ∧ i.pc ≠ c.pc + s.profile.ret.size :=
    hp.returns_iff h.in_range hi
  rw [backtrace_record, if_pos henters]
  by_cases hnext : i.pc = c.pc + s.profile.ret.size
  · have hsettled := h.settled_of_not_closes hp hi fun hcloses => hcloses.2 hnext
    simp [hsettled, hnext, Arrival.origin, Arrival.resume, hopcode, hentry]
  · have hsettle : (arrival s r i).settled = settle s.profile r.graph i.pc r.backtrace := by
      rw [h.arrival_eq, if_pos (hreturns.2 ⟨hret, hnext⟩)]
    cases hbacktrace : r.backtrace with
    | nil =>
      have hsettled : (arrival s r i).settled = .missed := by rw [hsettle, hbacktrace, settle]
      simp [hsettled, Arrival.origin, Arrival.resume, hopcode, hentry]
    | cons f rest =>
      have hbelongs : belongs s.profile r.graph i.pc f = true := by
        unfold belongs
        split <;> simp [hvector]
      have hsettled : (arrival s r i).settled = .matched f := by
        simp [hsettle, hbacktrace, settle, hbelongs]
      simp [hsettled, hnext, Arrival.origin, Arrival.resume]

/-- An interrupt that was announced is entered from a return. -/
theorem backtrace_interrupted_return (h : At s r a) (hp : s.profile.Regular)
    (hret : s.profile.ret.contains a.opcode = true) (hv : v.pc < s.profile.beginAddress)
    (hvector : s.profile.isInterruptVector v.pc = true) (id : Nat) :
    (r.interrupted s id v).backtrace =
      if v.pc = a.pc + s.profile.ret.size ∨ r.backtrace = [] then
        ⟨r.cursor, .anywhere⟩ :: r.backtrace
      else r.backtrace := by
  rw [interrupted_eq r id hv]
  exact (h.announced id).backtrace_entered hp hret hv hvector (h.enters_announced hvector id)

end At

/-- The step from `r` to `i` takes the frame `f` away and leaves `rest` pending. A return that
belongs to the frame goes on from its site, any other one is reported as a miss. -/
structure Ended (s : Setup) (f : Frame) (rest : List Frame) (i : Instruction)
    (r r' : Recorder) : Prop where
  backtrace : r'.backtrace = rest
  matched : belongs s.profile r.graph i.pc f = true → Resumption s f.site rest i r r'
  missed : belongs s.profile r.graph i.pc f = false →
    r'.diagnostics = .returnMiss (r.graph.block r.cursor).pc i.pc r.tally.lines :: r.diagnostics ∧
      (r'.graph.edge? r.cursor r'.cursor).map (·.kind) = some .returnMiss

/-- A taken return with a frame pending ends it. -/
theorem At.ended (h : At s r c) (hi : i.pc < s.profile.beginAddress)
    (hvector : s.profile.isInterruptVector i.pc = false)
    (hreturns : s.profile.returns c.opcode (displacement c.pc i.pc) = true)
    (hbacktrace : r.backtrace = f :: rest) : Ended s f rest i r (r.record s i) := by
  have henters := h.enters_of_not_vector hvector
  have hsettle : (arrival s r i).settled =
      if belongs s.profile r.graph i.pc f then .matched f else .missed := by
    simp [h.arrival_eq, hreturns, hbacktrace, settle]
  refine ⟨?_, fun hbelongs => h.resumption_matched hi hvector hreturns hbacktrace hbelongs,
    fun hbelongs => ?_⟩
  · have hsettled : (arrival s r i).settled ≠ .none := by
      rw [hsettle]
      split <;> simp
    simp [backtrace_record, henters, hsettled, hbacktrace]
  · have hsettled : (arrival s r i).settled = .missed := by simp [hsettle, hbelongs]
    have hpc := Block.pc_of_fixed (h.sound.fixed_place (s.labelled i) h.sound.cursor_lt)
    have hpc' : (arrival s r i).pc = i.pc := by rw [h.arrival_eq]
    refine ⟨?_, ?_⟩
    · rw [record_eq_move, diagnostics_move]
      unfold settleReturn
      simp only [hsettled, hpc', place, hpc]
    · rw [cursor_record, Sound.graph_record_missed hsettled henters]
      exact h.sound.kind_link_place h.sound.cursor_lt (some .returnMiss) (.refl _)

/-! ## A return that falls through -/

/-- What an interrupt does to a return that is not taken, where `r` is the state before it, `r'` the
one at the end of its handler, `v` the handler's first instruction and `i` the one right behind the
return. -/
structure FallenThrough (s : Setup) (v i : Instruction) (r r' : Recorder) : Prop where
  /-- Without the interrupt the step goes on from the return. -/
  direct : s.profile.isInterruptVector i.pc = false →
    Resumption s r.cursor r.backtrace i r (r.feed s (.instruction i))
  /-- Behind the handler it does so exactly when nothing was pending. -/
  same_iff : s.profile.isInterruptVector i.pc = false →
    (Resumption s r.cursor r.backtrace i r' (r'.feed s (.instruction i)) ↔ r.backtrace = [])
  /-- Otherwise the step is held to end the innermost frame. -/
  ended : s.profile.isInterruptVector i.pc = false → ∀ f rest, r.backtrace = f :: rest →
    Ended s f rest i r' (r'.feed s (.instruction i))
  /-- At a vector the step enters a handler, along no edge. -/
  edges : s.profile.isInterruptVector i.pc = true →
    ∀ y z, (r'.feed s (.instruction i)).graph.edge? y z = r'.graph.edge? y z
  entered : s.profile.isInterruptVector i.pc = true →
    (r'.feed s (.instruction i)).backtrace =
      if v.pc = i.pc ∨ r.backtrace = [] then ⟨r.cursor, .anywhere⟩ :: r.backtrace
      else r.backtrace

/-- **An interrupt that comes upon a return counts it as taken.** When the return falls through
after all, the handler's own return takes away the frame that was pending when the interrupt
came. -/
theorem interrupted_return (hprofile : s.profile = .gameBoy) (hr : Reached s r)
    (hret : s.profile.ret.contains (r.graph.block r.cursor).lastOpcode = true)
    (hi : i.pc < s.profile.beginAddress)
    (hnext : i.pc = (r.graph.block r.cursor).pc + s.profile.ret.size) (id : Nat)
    (hv : s.profile.isInterruptVector v.pc = true) {run : List TraceRecord}
    (hrun : Handler s (r.interrupted s id v) run i) :
    FallenThrough s v i r ((r.interrupted s id v).feedAll s run) := by
  have hp : s.profile.Regular := hprofile ▸ gameBoy_regular
  have hrange : v.pc < s.profile.beginAddress := by
    rw [hprofile] at hv ⊢
    exact gameBoy_vector_lt hv
  obtain ⟨a, hat⟩ := hr.sound.at_cursor hret
  rw [hat.lastOpcode_cursor] at hret
  rw [hat.pc_cursor] at hnext
  -- the handler ends in a return of its own, with the frames it was entered with
  have hframes := hrun.backtrace.trans (hat.backtrace_interrupted_return hp hret hrange hv id)
  rw [← hnext] at hframes
  have hsound : Sound s ((r.interrupted s id v).feedAll s run) := (hr.sound.feedAll _).feedAll run
  obtain ⟨c, hat'⟩ := hsound.at_cursor hrun.ret
  have hcloses : Closes s.profile c i := by
    refine ⟨?_, ?_⟩
    · rw [← hat'.lastOpcode_cursor]
      exact hrun.ret
    · rw [← hat'.pc_cursor]
      exact hrun.taken
  have hreturns := (hp.returns_iff hat'.in_range hi).2 hcloses
  generalize (r.interrupted s id v).feedAll s run = r' at *
  have hended : s.profile.isInterruptVector i.pc = false → ∀ f rest, r.backtrace = f :: rest →
      Ended s f rest i r' (r'.record s i) := by
    intro hvector f rest hbacktrace
    have hapart : v.pc ≠ i.pc := by
      intro heq
      rw [heq, hvector] at hv
      cases hv
    rw [if_neg (by simp [hapart, hbacktrace]), hbacktrace] at hframes
    exact hat'.ended hi hvector hreturns hframes
  have henters : s.profile.isInterruptVector i.pc = true → (arrival s r' i).enters = true :=
    fun hvector => hat'.enters_of_returns hp hcloses.1 hvector hreturns
  have hresumed : r'.feed s (.instruction i) = r'.record s i := feed_of_lt _ hi
  refine ⟨fun hvector => ?_, fun hvector => ⟨fun hsame => ?_, fun hnil => ?_⟩, ?_, ?_, ?_⟩
  · rw [feed_of_lt _ hi]
    exact hat.resumption_fallThrough hp hret hi hvector hnext
  · -- a frame that was pending is gone
    rw [hresumed] at hsame
    cases hbacktrace : r.backtrace with
    | nil => rfl
    | cons f rest =>
      have hlost := (hended hvector f rest hbacktrace).backtrace
      rw [hsame.backtrace, hbacktrace] at hlost
      exact absurd hlost (List.cons_ne_self f rest)
  · rw [hnil, if_pos (.inr rfl)] at hframes
    rw [hresumed, hnil]
    exact hat'.resumption_anywhere hi hvector hreturns hframes
  · rw [hresumed]
    exact hended
  · intro hvector
    rw [hresumed]
    exact fun y z => ((sameEdges_record (henters hvector)).edge? y z).trans (edge?_place ..)
  · intro hvector
    have hkept := hat'.backtrace_entered hp hcloses.1 hi hvector (henters hvector)
    have hnonempty : r'.backtrace ≠ [] := by
      rw [hframes]
      split
      · simp
      · rename_i hpending
        exact fun hnil => hpending (.inr hnil)
    rw [if_neg fun h => h.elim hcloses.2 hnonempty] at hkept
    rw [hresumed, hkept, hframes]

/-- A conditional return in a called function, not taken, and a handler that calls another. -/
theorem interrupted_return_pending :
    let s : Setup := { profile := .gameBoy }
    let call : Instruction := ⟨0x100, [0xCD], [0x00, 0x02], none⟩
    let conditional : Instruction := ⟨0x200, [0xC0], [], none⟩
    let next : Instruction := ⟨0x201, [0xC9], [], none⟩
    let vector : Instruction := ⟨0x40, [0xCD], [0x00, 0x03], none⟩
    let leave : Instruction := ⟨0x300, [0xC9], [], none⟩
    let back : Instruction := ⟨0x43, [0xD9], [], none⟩
    let r := (Recorder.new s.profile).feedAll s [.instruction call, .instruction conditional]
    let run : List TraceRecord := [.instruction leave, .instruction back]
    let r' := (r.interrupted s 1 vector).feedAll s run
    s.profile = .gameBoy ∧ Reached s r ∧
      s.profile.ret.contains (r.graph.block r.cursor).lastOpcode = true ∧
      next.pc < s.profile.beginAddress ∧
      next.pc = (r.graph.block r.cursor).pc + s.profile.ret.size ∧
      s.profile.isInterruptVector vector.pc = true ∧
      Handler s (r.interrupted s 1 vector) run next ∧ FallenThrough s vector next r r' ∧
      ¬Resumption s r.cursor r.backtrace next r' (r'.feed s (.instruction next)) := by
  intro s call conditional next vector leave back r run r'
  have hreached : Reached s r := Reached.new.feedAll _
  have hret : s.profile.ret.contains (r.graph.block r.cursor).lastOpcode = true := by
    decide +kernel
  have hnext : next.pc = (r.graph.block r.cursor).pc + s.profile.ret.size := by decide +kernel
  have hunwound : Unwound s (r.interrupted s 1 vector) run :=
    unwound_of_take (by decide +kernel) (by decide +kernel) (by decide +kernel)
  have hrun : Handler s (r.interrupted s 1 vector) run next :=
    ⟨hunwound.deep, hunwound.level, hunwound.ret, by decide +kernel⟩
  have hresult : FallenThrough s vector next r r' :=
    interrupted_return rfl hreached hret (by decide) hnext 1 (by decide) hrun
  refine ⟨rfl, hreached, hret, by decide, hnext, by decide, hrun, hresult, ?_⟩
  rw [hresult.same_iff (by decide)]
  decide +kernel

/-- The caller's frame is lost and the handler's return is reported, with no edge from the return
that fell through. -/
theorem interrupted_return_lost :
    let s : Setup := { profile := .gameBoy }
    let call : Instruction := ⟨0x100, [0xCD], [0x00, 0x02], none⟩
    let conditional : Instruction := ⟨0x200, [0xC0], [], none⟩
    let next : Instruction := ⟨0x201, [0xC9], [], none⟩
    let vector : Instruction := ⟨0x40, [0xD9], [], none⟩
    let r := (Recorder.new s.profile).feedAll s [.instruction call, .instruction conditional]
    let r' := r.interrupted s 0x40 vector
    let r'' := r'.feed s (.instruction next)
    Reached s r ∧ s.profile.ret.contains (r.graph.block r.cursor).lastOpcode = true ∧
      next.pc = (r.graph.block r.cursor).pc + s.profile.ret.size ∧
      s.profile.isInterruptVector vector.pc = true ∧ Handler s r' [] next ∧
      r.backtrace = [⟨1, .past 3⟩] ∧ r''.backtrace = [] ∧
      r''.diagnostics = .returnMiss 0x40 0x201 0 :: r'.diagnostics ∧
      r''.graph.edge? r.cursor r''.cursor = none := by
  intro s call conditional next vector r r' r''
  have hunwound : Unwound s r' [] :=
    unwound_of_take (by decide +kernel) (by decide +kernel) (by decide +kernel)
  have hrun : Handler s r' [] next :=
    ⟨hunwound.deep, hunwound.level, hunwound.ret, by decide +kernel⟩
  exact ⟨Reached.new.feedAll _, by decide +kernel, by decide +kernel, by decide, hrun,
    by decide +kernel, by decide +kernel, by decide +kernel, by decide +kernel⟩

end TraceFlow.Recorder
