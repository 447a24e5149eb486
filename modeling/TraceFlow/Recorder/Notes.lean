/-
TraceFlow.Recorder.Notes — following a trace and telling of it.

* `recordNoting`, `feedNoting`, `lineNoting` and `linesNoting` make the
  steps that their namesakes in `TraceFlow.Recorder` make, and give what
  is noted on the way beside the state.
* Notes change nothing: the state is the one without them
  (`fst_recordNoting` to `fst_linesNoting`).
-/
import TraceFlow.Recorder
import TraceFlow.Note
import TraceFlow.Text.Quoted

namespace TraceFlow.Recorder

/-! ## What is noted about a step -/

def returnNotes (r : Recorder) (a : Arrival) : List Note :=
  match a.settled with
  | .none => []
  | .matched f =>
    [⟨.trace, "Return to " ++ Hex.padded 4 a.pc ++ " matched call site " ++ r.graph.name f.site⟩]
  | .missed =>
    [⟨.warn, "Line " ++ Nat.repr r.tally.lines ++ ": " ++
      Diagnostic.missText (r.graph.block r.cursor).pc a.pc⟩]

/-- The name of a block once the block `handler` is an interrupt handler. -/
def nameOnceEntered (g : Graph) (handler id : BlockId) : String :=
  let name := (g.block id).name
  (if id = handler then { name with kind := .handler } else name).render g.digits

def handlerNotes (r : Recorder) (a : Arrival) : List Note :=
  if a.enters then
    [⟨.trace, "Interrupt entry " ++ nameOnceEntered r.graph a.target a.target ++ " from " ++
      nameOnceEntered r.graph a.target (a.origin r.cursor)⟩]
  else []

/-! ## Steps with their notes -/

def recordNoting (s : Setup) (r : Recorder) (inst : Instruction) : Recorder × List Note :=
  let (placed, target) := place s r inst
  let a := arrive s.profile placed target inst.pc
  let notes := returnNotes placed a ++ handlerNotes placed a
  (move s.profile placed a, notes)

def feedNoting (s : Setup) (r : Recorder) : TraceRecord → Recorder × List Note
  | .instruction inst =>
    if s.profile.beginAddress ≤ inst.pc then
      let note : Note := ⟨.trace, "Skipping out-of-range pc " ++ Hex.upper inst.pc ++ " on line " ++
        Nat.repr r.tally.lines⟩
      (r.skip, [note])
    else r.recordNoting s inst
  | .interrupt id => (r.feed s (.interrupt id), [⟨.trace, "Interrupt marker " ++ Hex.padded 2 id⟩])

def lineNoting (s : Setup) (r : Recorder) (line : List Char) : Recorder × List Note :=
  let counted := r.countLine
  match TraceLine.read? line with
  | some rec => counted.feedNoting s rec
  | none =>
    let note : Note := ⟨.trace, "Skipping line " ++ Nat.repr counted.tally.lines ++ ": " ++
      Text.quoted line⟩
    (counted.skip, [note])

/-- The state after a sequence of lines, with `notes` and what is noted about the lines. -/
def linesNoting (s : Setup) : Recorder → Array Note → List (List Char) → Recorder × Array Note
  | r, notes, [] => (r, notes)
  | r, notes, line :: lines =>
    let (r, more) := r.lineNoting s line
    linesNoting s r (notes ++ more) lines

def finishNotes (r : Recorder) : List Note :=
  if r.backtrace.isEmpty then []
  else [⟨.debug, "Trace ended with " ++ Nat.repr r.backtrace.length ++ " pending frames"⟩]

/-! ## Notes change nothing -/

@[simp] theorem fst_recordNoting (s : Setup) (r : Recorder) (inst : Instruction) :
    (r.recordNoting s inst).1 = r.record s inst := rfl

@[simp] theorem fst_feedNoting (s : Setup) (r : Recorder) (rec : TraceRecord) :
    (r.feedNoting s rec).1 = r.feed s rec := by
  cases rec with
  | instruction inst =>
    simp only [feedNoting, feed]
    by_cases h : s.profile.beginAddress ≤ inst.pc <;> simp [h]
  | interrupt id => rfl

@[simp] theorem fst_lineNoting (s : Setup) (r : Recorder) (line : List Char) :
    (r.lineNoting s line).1 = r.feedLine s line := by
  unfold lineNoting feedLine
  cases TraceLine.read? line <;> simp

@[simp] theorem fst_linesNoting (s : Setup) (r : Recorder) (notes : Array Note)
    (lines : List (List Char)) : (linesNoting s r notes lines).1 = r.feedLines s lines := by
  induction lines generalizing r notes with
  | nil => rfl
  | cons line lines ih => simp [linesNoting, ih, feedLines]

end TraceFlow.Recorder
