/-
TraceFlow.Proofs.Recorder.Padding — lines that tell nothing change nothing.

`Padded p n k t t'` says how the trace `t'` comes from `t`: line by line,
each at a line boundary, `n` lines that tell nothing are put in and `k`
markers of interrupts that do not happen. A marker does not happen if the
next instruction is at no interrupt vector, so the condition looks ahead
(`quiet`), over whatever lines follow.

The two traces are followed side by side. `Alike n k r r'` relates their
states: all that a later step looks at is equal, and the rest differs by
the line numbers in the reports and by `n` and `k` in the counters. The one
exception is whether an interrupt was announced. A marker that is put in
sets it on one side only, and it is read at the next instruction;
`SameNews` therefore says that both sides heard the same, or that the lines
ahead are quiet. `Alike.arrival` is where this is used: at no vector the
announcement does not count.

* `Alike.record` is the step for an instruction, part by part
  (`Alike.place`, `Alike.arrival`, `Alike.move`); `Alike.feedLine` adds the
  other lines and hands the news on, since an instruction forgets them.
* `Alike.feedLines` is the induction over the lines that both traces have.
* `Trace.alike_follow` is the induction over `Padded`: one more line is put
  in between `a` and `b`, the lines of `a` lead both sides to one state,
  the line itself to one alike (`alike_idle`, `alike_marker`), and the
  lines of `b` are read alike from there on.

`padding_ignored` carries the relation to the recording and to the map of
functions, in which the diagnostics are compared without their lines.
-/
import TraceFlow.Proofs.Recorder.Arrival
import TraceFlow.Proofs.Recorder.Executed

namespace TraceFlow

def Diagnostic.unnumbered : Diagnostic → Diagnostic
  | .returnMiss retPc target _ => .returnMiss retPc target 0
  | .unclaimedBlock name => .unclaimedBlock name

/-- The counters when `n` lines more were skipped and `k` interrupt markers more were read. -/
def Tally.padded (n k : Nat) (t : Tally) : Tally :=
  { t with
    lines := t.lines + (n + k)
    skippedLines := t.skippedLines + n
    interruptMarkers := t.interruptMarkers + k }

/-- Counters are padded twice as once with both numbers. -/
theorem Tally.padded_padded (n k n' k' : Nat) (t : Tally) :
    (t.padded n k).padded n' k' = t.padded (n + n') (k + k') := by
  simp only [padded, Tally.mk.injEq, and_true, true_and]
  omega

/-! ## Lines put in -/

namespace Trace

/-- The line that bytes without a line feed spell. -/
def line (bytes : List UInt8) : List Char := trimLine (Utf8.lossy bytes)

/-- Behind a line boundary a trace is cut by itself. -/
theorem lines_append {a : List UInt8} (b : List UInt8) (ha : Text.Complete 10 a) :
    lines (a ++ b) = lines a ++ lines b := by
  rw [lines, Text.cut_append 10 b ha, List.map_append]
  rfl

/-- A line that is put in is one line. -/
theorem lines_line_append {l : List UInt8} (b : List UInt8) (hl : 10 ∉ l) :
    lines (l ++ 10 :: b) = line l :: lines b := by
  rw [lines, Text.cut_append_mark 10 b hl]
  rfl

end Trace

/-- Whether a line tells nothing: it holds no record, or an instruction past the address space. -/
def idle (p : Profile) (line : List Char) : Bool :=
  match TraceLine.read? line with
  | none => true
  | some (.instruction inst) => p.beginAddress ≤ inst.pc
  | some (.interrupt _) => false

/-- Whether the next instruction on some lines, if there is one, is at no interrupt vector. -/
def quiet (p : Profile) (lines : List (List Char)) : Bool :=
  (executed p (lines.filterMap TraceLine.read?)).head?.all fun i => !p.isInterruptVector i.pc

/-- The second trace is the first with `n` lines that tell nothing and `k` interrupt markers, each
with no vector ahead, put in at line boundaries. -/
inductive Padded (p : Profile) : Nat → Nat → List UInt8 → List UInt8 → Prop
  | refl (t : List UInt8) : Padded p 0 0 t t
  | idle {n k : Nat} {t a b l : List UInt8} (h : Padded p n k t (a ++ b))
      (ha : Text.Complete 10 a) (hl : 10 ∉ l) (hidle : idle p (Trace.line l)) :
      Padded p (n + 1) k t (a ++ (l ++ 10 :: b))
  | marker {n k : Nat} {t a b l : List UInt8} {id : Nat} (h : Padded p n k t (a ++ b))
      (ha : Text.Complete 10 a) (hl : 10 ∉ l)
      (hmarker : TraceLine.read? (Trace.line l) = some (.interrupt id))
      (hquiet : quiet p (Trace.lines b)) :
      Padded p n (k + 1) t (a ++ (l ++ 10 :: b))

namespace Recorder

variable {s : Setup} {r r' r'' : Recorder} {p : Profile} {n k n' k' : Nat} {inst : Instruction}
  {line : List Char} {lines : List (List Char)}

/-! ## Two states side by side -/

/-- The second state is the first after `n` lines more that tell nothing and `k` markers more; it
may differ in whether an interrupt was announced. -/
structure Alike (n k : Nat) (r r' : Recorder) : Prop where
  graph : r'.graph = r.graph
  start : r'.start = r.start
  cursor : r'.cursor = r.cursor
  backtrace : r'.backtrace = r.backtrace
  diagnostics : r'.diagnostics.map Diagnostic.unnumbered = r.diagnostics.map Diagnostic.unnumbered
  tally : r'.tally = r.tally.padded n k

/-- The second state has heard of the same interrupt as the first, or the lines that follow make no
difference of it. -/
def SameNews (p : Profile) (r r' : Recorder) (lines : List (List Char)) : Prop :=
  r'.interruptPending = r.interruptPending ∨ quiet p lines

theorem Alike.refl (r : Recorder) : Alike 0 0 r r := ⟨rfl, rfl, rfl, rfl, rfl, rfl⟩

/-- What is put in twice adds up. -/
theorem Alike.trans (h : Alike n k r r') (h' : Alike n' k' r' r'') :
    Alike (n + n') (k + k') r r'' where
  graph := h'.graph.trans h.graph
  start := h'.start.trans h.start
  cursor := h'.cursor.trans h.cursor
  backtrace := h'.backtrace.trans h.backtrace
  diagnostics := h'.diagnostics.trans h.diagnostics
  tally := by rw [h'.tally, h.tally, Tally.padded_padded]

/-! ## Steps of both -/

/-- The edge that a step draws depends on the graph and the cursor only. -/
theorem graph_follow_congr {a : Arrival} (hgraph : r'.graph = r.graph)
    (hcursor : r'.cursor = r.cursor) : (follow p r' a).graph = (follow p r a).graph := by
  unfold follow
  cases p.transfer a.opcode a.offset
  · simp only [hgraph, hcursor]
  · simp only [hgraph, hcursor]
  · simp only [hgraph, hcursor]
    split <;> rfl
  · simp only [hgraph, hcursor]

/-- What a judged step makes of the graph depends on the graph and the block executed last. -/
theorem graph_move_congr {a : Arrival} (hgraph : r'.graph = r.graph)
    (hcursor : r'.cursor = r.cursor) : (move p r' a).graph = (move p r a).graph := by
  unfold move
  by_cases henters : a.enters
  · simp [henters, enterHandler, hgraph]
  · cases hsettled : a.settled with
    | none =>
      simp only [henters, Bool.false_eq_true, if_false, draw, hsettled]
      exact graph_follow_congr (by simp [hgraph]) (by simp [hcursor])
    | matched f => simp [henters, draw, hsettled, hgraph]
    | missed => simp [henters, draw, hsettled, hgraph, hcursor]

namespace Alike

/-- A return that misses is reported on both sides, on whatever lines. -/
theorem settleReturn (h : Alike n k r r') (a : Arrival) :
    (settleReturn r' a).diagnostics.map Diagnostic.unnumbered =
      (settleReturn r a).diagnostics.map Diagnostic.unnumbered := by
  unfold Recorder.settleReturn
  cases a.settled with
  | none => exact h.diagnostics
  | matched f => exact h.diagnostics
  | missed => simp [Diagnostic.unnumbered, h.diagnostics, h.graph, h.cursor]

/-- What a judgement does, it does on both sides. -/
theorem move (h : Alike n k r r') (a : Arrival) :
    Alike n k (Recorder.move p r a) (Recorder.move p r' a) where
  graph := graph_move_congr h.graph h.cursor
  start := by rw [start_move, start_move, h.start]
  cursor := rfl
  backtrace := by
    rw [backtrace_move, backtrace_move, backtrace_settleReturn, backtrace_settleReturn, h.backtrace,
      h.cursor]
  diagnostics := by rw [diagnostics_move, diagnostics_move, h.settleReturn]
  tally := by
    rw [tally_move, tally_move, h.tally]
    rfl

/-- Both sides find or create the same block. -/
theorem place (h : Alike n k r r') (inst : Instruction) :
    Alike n k (Recorder.place s r inst).1 (Recorder.place s r' inst).1 where
  graph := by simp [Recorder.place, h.graph]
  start := h.start
  cursor := h.cursor
  backtrace := h.backtrace
  diagnostics := h.diagnostics
  tally := by simp [Recorder.place, h.tally, Tally.padded]

/-- Both states judge a step alike when they heard of the same interrupt, or it is to no vector. -/
theorem arrival (h : Alike n k r r')
    (hnews : r'.interruptPending = r.interruptPending ∨
      s.profile.isInterruptVector inst.pc = false) :
    arrival s r' inst = arrival s r inst := by
  have hplaced := h.place (s := s) inst
  unfold Recorder.arrival arrive
  rw [h.graph, hplaced.graph, hplaced.cursor, hplaced.start, hplaced.backtrace]
  rcases hnews with hpending | hvector
  · rw [show (Recorder.place s r' inst).1.interruptPending =
      (Recorder.place s r inst).1.interruptPending from hpending]
  · simp [Profile.entersHandler, hvector]

/-- The step for an instruction, which both sides judge alike. -/
theorem record (h : Alike n k r r')
    (hnews : r'.interruptPending = r.interruptPending ∨
      s.profile.isInterruptVector inst.pc = false) :
    Alike n k (r.record s inst) (r'.record s inst) := by
  rw [record_eq_move, record_eq_move, h.arrival hnews]
  exact (h.place inst).move _

theorem skip (h : Alike n k r r') : Alike n k r.skip r'.skip where
  __ := h
  tally := by
    simp only [Recorder.skip, h.tally, Tally.padded, Tally.mk.injEq, and_true, true_and]
    omega

theorem countLine (h : Alike n k r r') : Alike n k r.countLine r'.countLine where
  __ := h
  tally := by
    simp only [Recorder.countLine, h.tally, Tally.padded, Tally.mk.injEq, and_true]
    omega

/-- A marker that both sides read leaves them with the same news. -/
theorem interrupt (h : Alike n k r r') (id : Nat) :
    Alike n k (r.feed s (.interrupt id)) (r'.feed s (.interrupt id)) where
  __ := h
  tally := by
    simp only [Recorder.feed, h.tally, Tally.padded, Tally.mk.injEq, and_true, true_and]
    omega

end Alike

/-- With an instruction first, the lines ahead are quiet if it is at no vector. -/
theorem quiet_cons_of_read? (hread : TraceLine.read? line = some (.instruction inst))
    (hinst : inst.pc < p.beginAddress) :
    quiet p (line :: lines) = !p.isInterruptVector inst.pc := by
  simp [quiet, executed, hread, Nat.not_le.2 hinst]

/-- A line that tells nothing is looked past. -/
theorem quiet_cons_of_idle (hidle : idle p line) : quiet p (line :: lines) = quiet p lines := by
  unfold idle at hidle
  unfold quiet
  split at hidle
  · rename_i hread
    rw [List.filterMap_cons_none hread]
  · rename_i inst hread
    rw [List.filterMap_cons_some hread, executed_cons]
    simp [executed, of_decide_eq_true hidle]
  · cases hidle

/-- It is counted and skipped. -/
theorem feedLine_of_idle (r : Recorder) (hidle : idle s.profile line) :
    r.feedLine s line = r.countLine.skip := by
  unfold idle at hidle
  unfold feedLine
  split at hidle
  · rename_i hread
    rw [hread]
  · rename_i inst hread
    rw [hread]
    exact (feed_instruction ..).trans (if_pos (of_decide_eq_true hidle))
  · cases hidle

theorem feedLine_of_read? (r : Recorder) {rec : TraceRecord}
    (hread : TraceLine.read? line = some rec) : r.feedLine s line = r.countLine.feed s rec := by
  rw [feedLine, hread]

/-- Both states read a line alike. -/
theorem Alike.feedLine (h : Alike n k r r') (hnews : SameNews s.profile r r' (line :: lines)) :
    Alike n k (r.feedLine s line) (r'.feedLine s line) ∧
      SameNews s.profile (r.feedLine s line) (r'.feedLine s line) lines := by
  by_cases hidle : idle s.profile line
  · rw [feedLine_of_idle r hidle, feedLine_of_idle r' hidle]
    refine ⟨h.countLine.skip, ?_⟩
    rwa [SameNews, quiet_cons_of_idle hidle] at hnews
  · cases hread : TraceLine.read? line with
    | none => simp [idle, hread] at hidle
    | some rec =>
      rw [feedLine_of_read? r hread, feedLine_of_read? r' hread]
      cases rec with
      | interrupt id => exact ⟨h.countLine.interrupt id, .inl rfl⟩
      | instruction inst =>
        have hinst : inst.pc < s.profile.beginAddress := by
          simpa [idle, hread] using hidle
        rw [feed_instruction, feed_instruction, if_neg (Nat.not_le.2 hinst),
          if_neg (Nat.not_le.2 hinst)]
        -- whatever was announced is settled by this instruction
        rw [SameNews, quiet_cons_of_read? hread hinst, Bool.not_eq_true'] at hnews
        exact ⟨h.countLine.record hnews, .inl rfl⟩

/-- Both states read a sequence of lines alike. -/
theorem Alike.feedLines (h : Alike n k r r') (hnews : SameNews s.profile r r' lines) :
    Alike n k (r.feedLines s lines) (r'.feedLines s lines) := by
  induction lines generalizing r r' with
  | nil => exact h
  | cons line lines ih =>
    obtain ⟨hline, hrest⟩ := h.feedLine hnews
    exact ih hline hrest

/-- A state and the one after a line that tells nothing. -/
theorem alike_idle (r : Recorder) (hidle : idle s.profile line) :
    Alike 1 0 r (r.feedLine s line) := by
  rw [feedLine_of_idle r hidle]
  exact ⟨rfl, rfl, rfl, rfl, rfl, rfl⟩

/-- A state and the one after an interrupt marker. -/
theorem alike_marker (r : Recorder) {id : Nat}
    (hmarker : TraceLine.read? line = some (.interrupt id)) :
    Alike 0 1 r (r.feedLine s line) := by
  rw [feedLine_of_read? r hmarker]
  exact ⟨rfl, rfl, rfl, rfl, rfl, by simp [feed, countLine, Tally.padded]⟩

end Recorder

/-! ## Whole traces -/

open Recorder

namespace Recording

/-- The second recording is the first, but for line numbers and for `n` lines skipped and `k`
interrupt markers read. -/
structure Alike (n k : Nat) (R R' : Recording) : Prop where
  graph : R'.graph = R.graph
  start : R'.start = R.start
  finish : R'.finish = R.finish
  diagnostics : R'.diagnostics.map Diagnostic.unnumbered = R.diagnostics.map Diagnostic.unnumbered
  tally : R'.tally = R.tally.padded n k

/-- A line put in at a line boundary leads to a state alike, if what follows is read alike. -/
theorem alike_follow_append {s : Setup} {n k : Nat} {a b l : List UInt8}
    (ha : Text.Complete 10 a) (hl : 10 ∉ l)
    (hline : ∀ r : Recorder, r.Alike n k (r.feedLine s (Trace.line l)) ∧
      SameNews s.profile r (r.feedLine s (Trace.line l)) (Trace.lines b)) :
    (follow s (a ++ b)).Alike n k (follow s (a ++ (l ++ 10 :: b))) := by
  simp only [follow, Trace.lines_append _ ha, Trace.lines_line_append _ hl, feedLines,
    List.foldl_append, List.foldl_cons]
  exact (hline _).1.feedLines (hline _).2

/-- The induction on the lines that are put in. -/
theorem alike_follow {s : Setup} {n k : Nat} {t t' : List UInt8} (h : Padded s.profile n k t t') :
    (follow s t).Alike n k (follow s t') := by
  induction h with
  | refl t => exact .refl _
  | idle _ ha hl hidle ih =>
    refine ih.trans (alike_follow_append ha hl fun r => ⟨alike_idle r hidle, .inl ?_⟩)
    rw [feedLine_of_idle r hidle]
    rfl
  | marker _ ha hl hmarker hquiet ih =>
    exact ih.trans (alike_follow_append ha hl fun r => ⟨alike_marker r hmarker, .inr hquiet⟩)

/-- Traces that are alike are closed alike. -/
theorem alike_finish {p : Profile} {n k : Nat} {r r' : Recorder} (h : r.Alike n k r') :
    (r.finish p).Alike n k (r'.finish p) where
  graph := by simp [Recorder.finish, h.graph, h.cursor]
  start := h.start
  finish := by simp [Recorder.finish, h.graph]
  diagnostics := by
    simp only [Recorder.finish, List.map_reverse, h.diagnostics]
  tally := by simp [Recorder.finish, h.tally, h.backtrace, Tally.padded]

end Recording

namespace FunctionMap

/-- The second map is the first, but for line numbers and for `n` lines skipped and `k` interrupt
markers read. -/
structure Alike (n k : Nat) (m m' : FunctionMap) : Prop where
  graph : m'.graph = m.graph
  functions : m'.functions = m.functions
  innerFunctions : m'.innerFunctions = m.innerFunctions
  diagnostics : m'.diagnostics.map Diagnostic.unnumbered = m.diagnostics.map Diagnostic.unnumbered
  tally : m'.tally = m.tally.padded n k

/-- The stages see nothing but the graph and the two blocks around the trace. -/
theorem alike_functionMap {p : Profile} {n k : Nat} {R R' : Recording} (h : R.Alike n k R') :
    (R.functionMap p).Alike n k (R'.functionMap p) := by
  have hextraction : R'.extraction p = R.extraction p := by
    rw [Recording.extraction, h.graph, h.start]
    rfl
  rw [Recording.functionMap, Recording.functionMap, hextraction]
  refine ⟨rfl, rfl, rfl, ?_, ?_⟩
  · simp [Extraction.functionMap, h.diagnostics]
  · simp [Extraction.functionMap, h.tally, Tally.padded]

end FunctionMap

/-- Lines that tell nothing, and markers of interrupts that do not happen, change neither the raw
graph of a trace nor its functions; only line numbers and the counters of such lines differ. -/
theorem padding_ignored (s : Setup) {n k : Nat} {t t' : List UInt8}
    (h : Padded s.profile n k t t') :
    (Recording.ofTrace s t).Alike n k (Recording.ofTrace s t') ∧
      (FunctionMap.ofTrace s t).Alike n k (FunctionMap.ofTrace s t') := by
  have hrecording : (Recording.ofTrace s t).Alike n k (Recording.ofTrace s t') :=
    Recording.alike_finish (Recording.alike_follow h)
  exact ⟨hrecording, FunctionMap.alike_functionMap hrecording⟩

/-- Bytes that are no text, an address past the address space, and a marker before an ordinary
instruction. -/
theorem padding_ignored_noise :
    let call := Utf8.encode "PC : 0100 | OPCODE : CD | MEM : 0200\n"
    let missed := Utf8.encode "PC : 0200 | OPCODE : C9\nPC : 0300 | OPCODE : 00"
    let invalid : List UInt8 := [0xFF, 0xC3, 0x28]
    let far := Utf8.encode "PC : 10000 | OPCODE : 00"
    let marker := Utf8.encode "Interrupt : 40"
    let padded := far ++ 10 :: (invalid ++ 10 :: (call ++ (marker ++ 10 :: missed)))
    let s := Cpu.setup .gameBoy
    Padded s.profile 2 1 (call ++ missed) padded ∧
      (Recording.ofTrace s (call ++ missed)).Alike 2 1 (Recording.ofTrace s padded) ∧
      (FunctionMap.ofTrace s (call ++ missed)).Alike 2 1 (FunctionMap.ofTrace s padded) := by
  intro call missed invalid far marker padded s
  have hread : TraceLine.read? (Trace.line marker) = some (.interrupt 0x40) := by decide +kernel
  have hmarker : Padded s.profile 0 1 (call ++ missed) (call ++ (marker ++ 10 :: missed)) :=
    .marker (.refl _) (.inr (by decide +kernel)) (by decide +kernel) hread (by decide +kernel)
  have hinvalid : Padded s.profile 1 1 (call ++ missed)
      (invalid ++ 10 :: (call ++ (marker ++ 10 :: missed))) :=
    hmarker.idle (a := []) (l := invalid) (.inl rfl) (by decide +kernel) (by decide +kernel)
  have hfar : Padded s.profile 2 1 (call ++ missed) padded :=
    hinvalid.idle (a := []) (l := far) (.inl rfl) (by decide +kernel) (by decide +kernel)
  exact ⟨hfar, padding_ignored s hfar⟩

end TraceFlow
