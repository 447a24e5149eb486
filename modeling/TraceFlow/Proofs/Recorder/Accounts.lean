/-
TraceFlow.Proofs.Recorder.Accounts — what the counters of a trace say of
each other.

A counter by itself is read back from the step function. What a reader
relies on is how they agree: lines with records, misses with the reports
and with the edges, and the calls and interrupts less the returns with
what is left pending. The last one fails by the returns that missed while
nothing was pending, since such a return is counted and takes no frame;
`strays` counts them from the lines of the trace, and no counter of the
recorder does.

One instruction comes first. `length_backtrace_record` is the equation of
the depth, by the three settlements that a step may have and by whether it
enters a handler; a return that matches has its frame from
`head?_of_settle`. `missLines_record` and `Sound.missCount_record_le` say
the same of the reports and of the edges.

`Accounted r n` joins the equations, with `n` for the strays so far.
`Accounted.feedLine` is the step: a line is skipped (`skip`), announces an
interrupt (`announce`) or holds an instruction (`instruction`). The last
generalizes the judgement of the step once its parts are known, so that
what is left is arithmetic over two conditionals. `Accounted.feedLines` is
the induction over the lines.

`Balances` is what becomes of the invariant when the trace is closed: the
reports are then in order, and the frames are counted. The bounds of the
pending frames are stated beside the equation, as they do not speak of
strays. `counters_balance` assembles this for every sequence of bytes and
for the functions of the trace; it has no hypothesis.
-/
import TraceFlow.Proofs.FunctionMap.Entries
import TraceFlow.Proofs.Graph.Kinds
import TraceFlow.Proofs.Recorder.Balance

namespace TraceFlow

def Diagnostic.missLine? : Diagnostic → Option Nat
  | .returnMiss _ _ line => some line
  | .unclaimedBlock _ => none

/-- The lines of the returns that missed, in the order in which they are reported. -/
def missLines (diagnostics : List Diagnostic) : List Nat := diagnostics.filterMap (·.missLine?)

namespace Recorder

open TraceFlow.Graph

variable {s : Setup} {r : Recorder} {i : Instruction} {a : Arrival} {g : Graph} {n : Nat}

/-! ## One instruction -/

/-- What a judged return does is what the innermost frame says. -/
theorem settle_arrival (hsettled : (arrival s r i).settled ≠ .none) :
    settle s.profile (r.graph.place (s.labelled i)).1 i.pc r.backtrace =
      (arrival s r i).settled := by
  unfold arrival arrive at hsettled ⊢
  simp only at hsettled ⊢
  split
  · rfl
  · rename_i hreturns
    rw [if_neg hreturns] at hsettled
    exact absurd rfl hsettled

/-- Calls and interrupts push frames, returns take them away; a return that misses while nothing is
pending is one too many. -/
theorem length_backtrace_record (s : Setup) (r : Recorder) (i : Instruction) :
    (r.record s i).backtrace.length + (if (arrival s r i).settled = .none then 0 else 1) =
      r.backtrace.length +
        (if (arrival s r i).enters = false ∧ (arrival s r i).settled = .none ∧
          s.profile.transfer (arrival s r i).opcode (arrival s r i).offset = .call then 1 else 0) +
        (if (arrival s r i).enters then 1 else 0) +
        if r.backtrace = [] ∧ (arrival s r i).settled = .missed then 1 else 0 := by
  rw [backtrace_record]
  cases hsettled : (arrival s r i).settled with
  | none =>
    by_cases henters : (arrival s r i).enters
    · simp [henters]
    · by_cases hcall : s.profile.transfer (arrival s r i).opcode (arrival s r i).offset = .call <;>
        simp [henters, hcall]
  | matched f =>
    -- the frame that the return ends was there
    have hsettle := settle_arrival (s := s) (r := r) (i := i) (by simp [hsettled])
    obtain ⟨rest, hrest⟩ := List.head?_eq_some_iff.1 (head?_of_settle (hsettle.trans hsettled))
    by_cases henters : (arrival s r i).enters <;> simp [henters, hrest]
  | missed =>
    cases hbacktrace : r.backtrace <;>
      by_cases henters : (arrival s r i).enters <;> simp [henters]

/-- A return that misses is reported, on the line that was read last. -/
theorem missLines_record (s : Setup) (r : Recorder) (i : Instruction) :
    missLines (r.record s i).diagnostics =
      if (arrival s r i).settled = .missed then r.tally.lines :: missLines r.diagnostics
      else missLines r.diagnostics := by
  rw [record_eq_move, diagnostics_move, settleReturn]
  cases (arrival s r i).settled <;> rfl

/-- A step draws at most one edge of a return that missed, and only if its return missed. -/
theorem Drawn.missCount_le (h : Drawn r a g) (hcursor : r.cursor < r.graph.size)
    (horigin : a.origin r.cursor < r.graph.size) :
    g.missCount ≤ r.graph.missCount + if a.settled = .missed then 1 else 0 := by
  cases h with
  | handler =>
    rw [sameEdges_handler.missCount]
    exact Nat.le_add_right _ _
  | call =>
    rw [← sameEdges_call.missCount]
    have hlt : r.cursor < (foundTaken (r.graph.modify a.target called) r.cursor).size := by
      rwa [sameEdges_call.size]
    refine Nat.le_trans (missCount_link_le hlt Nat.zero_lt_one) ?_
    exact Nat.add_le_add_left (Nat.zero_le _) _
  | edge marked kind _ hmiss =>
    have hsame := sameEdges_marked marked r.graph r.cursor
    rw [← hsame.missCount]
    refine Nat.le_trans (missCount_link_le (by rwa [hsame.size]) Nat.zero_lt_one) ?_
    refine Nat.add_le_add_left ?_ _
    split
    · rw [if_pos (hmiss ‹_›)]
    · exact Nat.zero_le _

/-- A step adds an edge of a return that missed only when it is one. -/
theorem Sound.missCount_record_le (h : Sound s r) (i : Instruction) :
    (r.record s i).graph.missCount ≤
      r.graph.missCount + if (arrival s r i).settled = .missed then 1 else 0 := by
  have hle := h.size_le_place (s.labelled i)
  have hdrawn := (drawn_record s r i).missCount_le (Nat.lt_of_lt_of_le h.cursor_lt hle)
    (Nat.lt_of_lt_of_le (h.origin_lt _ _ _) hle)
  refine Nat.le_trans hdrawn (Nat.add_le_add_right (missCount_le fun x y hxy => ?_) _)
  exact (edgeKind?_congr (edge?_place r.graph (s.labelled i) x y)).symm.trans hxy

/-! ## Lines -/

/-- Whether a line is a return that misses while nothing is pending, as a number. -/
def strayed (s : Setup) (r : Recorder) (line : List Char) : Nat :=
  if r.backtrace = [] ∧ r.tally.returnMisses < (r.feedLine s line).tally.returnMisses then 1 else 0

/-- The number of lines that are returns that miss while nothing is pending. -/
def strays (s : Setup) : Recorder → List (List Char) → Nat
  | _, [] => 0
  | r, line :: lines => strayed s r line + strays s (r.feedLine s line) lines

/-- The counters agree with each other, with what is pending, with the diagnostics and with the
edges; `n` returns missed while nothing was pending. -/
structure Accounted (r : Recorder) (n : Nat) : Prop where
  lines : r.tally.lines =
    r.tally.instructions + r.tally.interruptMarkers + r.tally.skippedLines
  misses : r.tally.returnMisses = (missLines r.diagnostics).length
  latest_first : (missLines r.diagnostics).Pairwise (· > ·)
  numbered : ∀ line ∈ missLines r.diagnostics, line ≤ r.tally.lines
  missed_le : r.tally.returnMisses ≤ r.tally.returns
  depth : r.backtrace.length + r.tally.returns = r.tally.calls + r.tally.interrupts + n
  strays_le : n ≤ r.tally.returnMisses
  edges_le : r.graph.missCount ≤ r.tally.returnMisses

namespace Accounted

/-- Nothing was counted before the trace. -/
theorem new (p : Profile) : Accounted (.new p) 0 := by
  have hempty : (Recorder.new p).graph.missCount = 0 := by
    refine List.length_eq_zero_iff.2 (List.filter_eq_nil_iff.2 fun l hl => ?_)
    simpa using noMiss_new p _ _ _ (mem_links_iff.1 hl)
  exact ⟨rfl, rfl, .nil, (fun _ hline => nomatch hline), Nat.le_refl _, rfl, Nat.le_refl _,
    Nat.le_of_eq hempty⟩

/-- A line that tells nothing is only counted. -/
theorem skip (h : Accounted r n) : Accounted r.countLine.skip n :=
  ⟨congrArg (· + 1) h.lines, h.misses, h.latest_first,
    fun line hline => Nat.le_succ_of_le (h.numbered line hline), h.missed_le, h.depth, h.strays_le,
    h.edges_le⟩

/-- An interrupt marker is only counted. -/
theorem announce (h : Accounted r n) (id : Nat) :
    Accounted (r.countLine.feed s (.interrupt id)) n := by
  refine ⟨?_, h.misses, h.latest_first,
    fun line hline => Nat.le_succ_of_le (h.numbered line hline), h.missed_le, h.depth, h.strays_le,
    h.edges_le⟩
  have hlines := h.lines
  show r.tally.lines + 1 = r.tally.instructions + (r.tally.interruptMarkers + 1) +
    r.tally.skippedLines
  omega

/-- An instruction is counted, and with it what its step does. -/
theorem instruction (h : Accounted r n) (hsound : Sound s r) (i : Instruction) :
    Accounted (r.countLine.record s i)
      (n + if r.backtrace = [] ∧ (arrival s r.countLine i).settled = .missed then 1 else 0) := by
  have hdepth := length_backtrace_record s r.countLine i
  have hlines := missLines_record s r.countLine i
  have hedges := hsound.countLine.missCount_record_le i
  have htally := tally_record s r.countLine i
  -- what the step settles, whether it enters and whether it calls is all that is left of it
  generalize r.countLine.record s i = r' at *
  generalize arrival s r.countLine i = a at *
  generalize s.profile.transfer a.opcode a.offset = transfer at *
  have hread : r'.tally.lines = r.tally.lines + 1 := congrArg Tally.lines htally
  have hinstructions : r'.tally.instructions = r.tally.instructions + 1 :=
    congrArg Tally.instructions htally
  have hmarkers : r'.tally.interruptMarkers = r.tally.interruptMarkers :=
    (congrArg Tally.interruptMarkers htally :)
  have hskipped : r'.tally.skippedLines = r.tally.skippedLines :=
    (congrArg Tally.skippedLines htally :)
  have hreturns : r'.tally.returns = r.tally.returns + if a.settled = .none then 0 else 1 :=
    congrArg Tally.returns htally
  have hmisses : r'.tally.returnMisses =
      r.tally.returnMisses + if a.settled = .missed then 1 else 0 :=
    congrArg Tally.returnMisses htally
  have hcalls : r'.tally.calls = r.tally.calls +
      if a.enters = false ∧ a.settled = .none ∧ transfer = .call then 1 else 0 :=
    congrArg Tally.calls htally
  have hinterrupts : r'.tally.interrupts = r.tally.interrupts + if a.enters then 1 else 0 :=
    congrArg Tally.interrupts htally
  have hearlier : ∀ line ∈ missLines r.diagnostics, line < r.tally.lines + 1 := fun line hline =>
    Nat.lt_succ_of_le (h.numbered line hline)
  change missLines r'.diagnostics =
    if a.settled = .missed then (r.tally.lines + 1) :: missLines r.diagnostics
    else missLines r.diagnostics at hlines
  change r'.backtrace.length + _ = r.backtrace.length + _ + _ + _ at hdepth
  change r'.graph.missCount ≤ r.graph.missCount + _ at hedges
  obtain ⟨hall, hreported, hlatest, -, hmissed, hbalance, hstrays, hdrawn⟩ := h
  refine ⟨?_, ?_, ?_, fun line hline => ?_, ?_, ?_, ?_, ?_⟩
  · omega
  · rw [hmisses, hlines, hreported]
    split <;> rfl
  · rw [hlines]
    split
    · exact List.pairwise_cons.2 ⟨hearlier, hlatest⟩
    · exact hlatest
  · rw [hlines] at hline
    rw [hread]
    split at hline
    · rcases List.mem_cons.1 hline with rfl | hold
      · exact Nat.le_refl _
      · exact Nat.le_of_lt (hearlier line hold)
    · exact Nat.le_of_lt (hearlier line hline)
  · -- a return that misses is one
    have hone : (if a.settled = .missed then 1 else 0) ≤ if a.settled = .none then 0 else 1 := by
      cases a.settled <;> simp
    omega
  · change _ = _ + if r.backtrace = [] ∧ a.settled = .missed then 1 else 0 at hdepth
    omega
  · have hone : (if r.backtrace = [] ∧ a.settled = .missed then 1 else 0) ≤
        if a.settled = .missed then 1 else 0 := by
      by_cases hsettled : a.settled = .missed
      · rw [if_pos hsettled]
        split <;> decide
      · simp [hsettled]
    omega
  · omega

/-- A line keeps the accounts. -/
theorem feedLine (h : Accounted r n) (hsound : Sound s r) (line : List Char) :
    Accounted (r.feedLine s line) (n + strayed s r line) := by
  have hidle : ∀ {r'}, Accounted r' n → r'.tally.returnMisses = r.tally.returnMisses →
      r.feedLine s line = r' → Accounted (r.feedLine s line) (n + strayed s r line) := by
    rintro r' hr' hsame rfl
    rwa [strayed, hsame, if_neg fun hstray => Nat.lt_irrefl _ hstray.2, Nat.add_zero]
  cases hread : TraceLine.read? line with
  | none => exact hidle h.skip rfl (by rw [Recorder.feedLine, hread])
  | some rec =>
    have hfeed : r.feedLine s line = r.countLine.feed s rec := by rw [Recorder.feedLine, hread]
    cases rec with
    | interrupt id => exact hidle (h.announce id) rfl hfeed
    | instruction i =>
      rw [feed_instruction] at hfeed
      split at hfeed
      · exact hidle h.skip rfl hfeed
      · have hmisses : (r.countLine.record s i).tally.returnMisses = r.tally.returnMisses +
            if (arrival s r.countLine i).settled = .missed then 1 else 0 := by
          rw [record_eq_move, tally_move]
          rfl
        have hstrayed : strayed s r line =
            if r.backtrace = [] ∧ (arrival s r.countLine i).settled = .missed then 1 else 0 := by
          rw [strayed, hfeed, hmisses]
          by_cases hsettled : (arrival s r.countLine i).settled = .missed <;> simp [hsettled]
        rw [hstrayed, hfeed]
        exact h.instruction hsound i

/-- The run over the lines, by induction on them. -/
theorem feedLines (h : Accounted r n) (hr : Reached s r) (lines : List (List Char)) :
    Accounted (r.feedLines s lines) (n + strays s r lines) := by
  induction lines generalizing r n with
  | nil => exact h
  | cons line lines ih =>
    rw [strays, ← Nat.add_assoc]
    exact ih (h.feedLine hr.sound line) (hr.feedLine line)

end Accounted

/-! ## Whole traces -/

/-- The counters of a whole trace agree with each other, with the diagnostics and with the edges;
`n` returns missed while nothing was pending. -/
structure Balances (raw : Recording) (n : Nat) : Prop where
  lines : raw.tally.lines =
    raw.tally.instructions + raw.tally.interruptMarkers + raw.tally.skippedLines
  misses : raw.tally.returnMisses = (missLines raw.diagnostics).length
  in_order : (missLines raw.diagnostics).Pairwise (· < ·)
  numbered : ∀ line ∈ missLines raw.diagnostics, line ≤ raw.tally.lines
  missed_le : raw.tally.returnMisses ≤ raw.tally.returns
  pending : (raw.tally.pendingFrames : Int) =
    raw.tally.calls + raw.tally.interrupts - raw.tally.returns + n
  le_pending : (raw.tally.calls + raw.tally.interrupts - raw.tally.returns : Int) ≤
    raw.tally.pendingFrames
  pending_le : (raw.tally.pendingFrames : Int) ≤ raw.tally.calls + raw.tally.interrupts -
    (raw.tally.returns - raw.tally.returnMisses)
  edges_le : raw.graph.missCount ≤ raw.tally.returnMisses

/-- Closing a trace keeps the accounts. -/
theorem Accounted.finish (h : Accounted r n) (hsound : Sound s r) :
    Balances (r.finish s.profile) n := by
  have hlines : missLines (r.finish s.profile).diagnostics = (missLines r.diagnostics).reverse :=
    List.filterMap_reverse
  have hdepth := h.depth
  have hstrays := h.strays_le
  have hpending : (r.finish s.profile).tally =
      { r.tally with pendingFrames := r.backtrace.length } := rfl
  refine ⟨h.lines, ?_, ?_, fun line hline => ?_, h.missed_le, ?_, ?_, ?_, ?_⟩
  · rw [hlines, List.length_reverse]
    exact h.misses
  · rw [hlines, List.pairwise_reverse]
    exact h.latest_first
  · rw [hlines, List.mem_reverse] at hline
    exact h.numbered line hline
  · rw [hpending]
    simp only
    omega
  · rw [hpending]
    simp only
    omega
  · rw [hpending]
    simp only
    omega
  · refine Nat.le_trans (missCount_le fun x y hxy => ?_) h.edges_le
    rw [edgeKind?, hsound.edge?_finish] at hxy
    split at hxy
    · cases hxy
    · exact hxy

/-- The way to the functions of a trace adds no edge of a return that missed. -/
theorem Sound.returnMissCount_le (h : Sound s r) :
    ((r.finish s.profile).functionMap s.profile).returnMissCount ≤
      (r.finish s.profile).graph.missCount := by
  have hraw := h.raw_finish
  have hdivided := (FunctionMap.sameEdges_functionMap h).missCount
  have hmerged := (hraw.mirrored.splitCallSites r.start).missCount_mergeStraightLines_le s.profile
  exact Nat.le_trans (Nat.le_of_eq hdivided) (Nat.le_trans hmerged hraw.missCount_split_le)

/-- **The counters of a trace balance**, whatever its bytes are. Every line is counted once. Returns
that missed are as many as the diagnostics say, in the order of their lines, and no fewer than the
edges of such returns, in the raw graph as among the functions. What is pending at the end is what
calls and interrupts began and returns did not end, and one for each return that missed while
nothing was pending. -/
theorem counters_balance (s : Setup) (bytes : List UInt8) :
    Balances (Recording.ofTrace s bytes) (strays s (.new s.profile) (Trace.lines bytes)) ∧
      ((Recording.ofTrace s bytes).functionMap s.profile).returnMissCount ≤
        (Recording.ofTrace s bytes).tally.returnMisses := by
  have hsound : Sound s (Recording.follow s bytes) := (Reached.new.feedLines _).sound
  have haccounted := (Accounted.new s.profile).feedLines .new (Trace.lines bytes)
  rw [Nat.zero_add] at haccounted
  have hbalances := haccounted.finish hsound
  exact ⟨hbalances, Nat.le_trans hsound.returnMissCount_le hbalances.edges_le⟩

/-- A return that misses the landing of the call, and one while nothing is pending: only the second
one strays. -/
example :
    let s : Setup := { profile := .gameBoy }
    let lines := ["PC : 0100 | OPCODE : CD".toList, "PC : 0200 | OPCODE : C9".toList,
      "PC : 0300 | OPCODE : C9".toList, "PC : 0103 | OPCODE : 00".toList]
    let raw := ((Recorder.new s.profile).feedLines s lines).finish s.profile
    missLines raw.diagnostics = [3, 4] ∧ strays s (.new s.profile) lines = 1 ∧
      raw.graph.missCount = 2 := by
  decide +kernel

end Recorder

end TraceFlow
