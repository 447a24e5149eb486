/-
TraceFlow.TraceFile — the functions of traces in files.

`build` gives the function map of one trace, through its archive if that
is wanted; `buildAll` those of several, where one that fails does not keep
the others from being built.
-/
import TraceFlow.Archive.File

namespace TraceFlow.TraceFile

variable {m : Type → Type} [Monad m] [Host m]

/-- The function map of a trace that was read, with the notes on the way to it. -/
def follow (cpu : Cpu) (bytes : List UInt8) : m FunctionMap := do
  let (map, notes) := FunctionMap.noting cpu.setup bytes
  Host.noteAll notes
  return map

/-- Writes the archive of a trace, and notes what came of it. -/
def keep (trace : String) (map : FunctionMap) : m Unit := do
  match ← Archive.store trace map with
  | .ok archive => Host.note ⟨.debug, "Cached graph to " ++ archive⟩
  | .error e => Host.note ⟨.warn, "Could not cache graph for " ++ trace ++ ": " ++ e.text⟩

def rebuild (cpu : Cpu) (archived : Bool) (trace : String) : m (Except Failure FunctionMap) := do
  match (← Host.read trace).toExcept with
  | .error e => return .error (.file e)
  | .ok bytes =>
    let map ← follow cpu bytes
    if archived then keep trace map
    return .ok map

/-- The function map of a trace; `archived` says whether its archive is used and kept. -/
def build (cpu : Cpu) (archived : Bool) (trace : String) : m (Except Failure FunctionMap) := do
  if archived then
    match ← Archive.load trace with
    | some map =>
      Host.note ⟨.debug, "Using cached graph for " ++ trace⟩
      return .ok map
    | none => rebuild cpu archived trace
  else rebuild cpu archived trace

def buildAll (cpu : Cpu) (archived : Bool) :
    List String → m (List (String × Except Failure FunctionMap))
  | [] => return []
  | trace :: traces => do
    let built ← build cpu archived trace
    return (trace, built) :: (← buildAll cpu archived traces)

end TraceFlow.TraceFile
