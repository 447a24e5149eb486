/-
TraceFlow.Archive.File — archives kept beside the traces they come from.

The archive of a trace lies in the same directory under the trace's name
with a suffix. It is used while it is not older than the trace and can be
read; else the trace is followed again.
-/
import TraceFlow.Archive
import TraceFlow.Host

namespace TraceFlow.Archive

/-- What the name of an archive adds to that of its trace. -/
def suffix : String := ".retrace.json"

def path (trace : String) : String :=
  Path.withFileName trace ((Path.fileName? trace).getD "" ++ suffix)

/-- Whether an archive is at least as new as its trace; one of unknown age is not. -/
def isFresh (trace archive : Option Int) : Bool :=
  match trace, archive with
  | some t, some a => t ≤ a
  | _, _ => false

variable {m : Type → Type} [Monad m] [Host m]

def ignore (archive reason : String) : m (Option FunctionMap) := do
  Host.note ⟨.debug, "Ignoring unreadable cache " ++ archive ++ ": " ++ reason⟩
  return none

/-- The map that the archive of a trace holds, if it is fresh and can be read. -/
def load (trace : String) : m (Option FunctionMap) := do
  let archive := path trace
  if isFresh (← Host.modified? trace) (← Host.modified? archive) then
    match ← Host.read archive with
    | .closed _ => return none
    | .unreadable e => ignore archive e.text
    | .bytes bytes =>
      match read? bytes with
      | .ok map => return some map
      | .error misfit => ignore archive misfit.message
  else return none

/-- Writes a map to the archive of a trace; gives the path of the archive. -/
def store (trace : String) (map : FunctionMap) : m (Except Failure String) := do
  match ← Host.write (path trace) (Utf8.encode (text map)) with
  | .ok _ => return .ok (path trace)
  | .error e => return .error (.file e)

end TraceFlow.Archive
