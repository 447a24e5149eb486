/-
TraceFlow.Diagnostic — anomalies of a reconstruction, and its counters.
-/
import TraceFlow.Address
import TraceFlow.Text.Hex

namespace TraceFlow

/-- Something that a reconstruction could not explain. -/
inductive Diagnostic where
  /-- A return that no pending call explains, on a line of the trace. -/
  | returnMiss (retPc target : Address) (line : Nat)
  /-- A block that belongs to no function. -/
  | unclaimedBlock (name : String)
deriving DecidableEq, Repr

namespace Diagnostic

def missText (retPc target : Address) : String :=
  "return at " ++ Hex.padded 4 retPc ++ " to " ++ Hex.padded 4 target ++ " has no matching call"

def text : Diagnostic → String
  | .returnMiss retPc target line => "line " ++ Nat.repr line ++ ": " ++ missText retPc target
  | .unclaimedBlock name => "block " ++ name ++ " is not part of any function"

def isUnclaimed : Diagnostic → Bool
  | .returnMiss .. => false
  | .unclaimedBlock _ => true

end Diagnostic

structure Tally where
  lines : Nat := 0
  instructions : Nat := 0
  /-- Lines that hold no record, and instructions past the address space. -/
  skippedLines : Nat := 0
  interruptMarkers : Nat := 0
  /-- Entries of interrupt handlers. -/
  interrupts : Nat := 0
  calls : Nat := 0
  returns : Nat := 0
  returnMisses : Nat := 0
  /-- Calls still pending at the end. -/
  pendingFrames : Nat := 0
  /-- Blocks absorbed by others. -/
  mergedBlocks : Nat := 0
deriving DecidableEq, Repr

end TraceFlow
