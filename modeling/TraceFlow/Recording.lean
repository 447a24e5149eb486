/-
TraceFlow.Recording — the raw graph of a trace.

A trace is bytes. It is cut at line feeds before anything is decoded, so
that ill-formed bytes spoil no line but their own; carriage returns and
line feeds at the end of a line do not belong to it. `ofTrace` gives the
raw graph; `noting` gives it with what is noted on the way.
-/
import TraceFlow.Recorder.Notes
import TraceFlow.Text.Lines
import TraceFlow.Text.Utf8

namespace TraceFlow

namespace Trace

/-- A line without carriage returns and line feeds at its end. -/
def trimLine (line : List Char) : List Char :=
  (line.reverse.dropWhile fun c => c = '\n' || c = '\r').reverse

def lines (bytes : List UInt8) : List (List Char) :=
  (Text.cut 10 bytes).map fun l => trimLine (Utf8.lossy l.body)

end Trace

namespace Recording

def follow (s : Setup) (bytes : List UInt8) : Recorder :=
  (Recorder.new s.profile).feedLines s (Trace.lines bytes)

def ofTrace (s : Setup) (bytes : List UInt8) : Recording :=
  (follow s bytes).finish s.profile

def closingNotes (followed : Recorder) (r : Recording) : List Note :=
  followed.finishNotes ++
    [⟨.debug, "Consumed " ++ Nat.repr r.tally.lines ++ " lines (" ++
      Nat.repr r.tally.instructions ++ " instructions, " ++
      Nat.repr r.tally.skippedLines ++ " skipped), " ++
      Nat.repr r.graph.size ++ " blocks"⟩]

/-- The raw graph of a trace, with what is noted while it is recorded. -/
def noting (s : Setup) (bytes : List UInt8) : Recording × List Note :=
  let (followed, notes) := (Recorder.new s.profile).linesNoting s #[] (Trace.lines bytes)
  let r := followed.finish s.profile
  (r, (notes ++ closingNotes followed r).toList)

/-- Notes change nothing. -/
@[simp] theorem fst_noting (s : Setup) (bytes : List UInt8) :
    (noting s bytes).1 = ofTrace s bytes := by
  simp [noting, ofTrace, follow]

end Recording

end TraceFlow
