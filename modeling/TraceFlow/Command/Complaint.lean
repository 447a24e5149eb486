/-
TraceFlow.Command.Complaint — why a run ended early.

A complaint says what was being done and then, one behind the other, the
causes why it could not be done. A single cause is set in; several are
numbered.
-/
import TraceFlow.Failure

namespace TraceFlow.Command

/-- Why a run ended early. -/
structure Complaint where
  text : String
  /-- The causes, the nearest one first. -/
  causes : List String := []
deriving DecidableEq, Repr

namespace Complaint

/-- A failure while something was being done. -/
def during (activity : String) (f : Failure) : Complaint := ⟨activity, f.chain⟩

/-- The complaint as a cause of another one. -/
def behind (activity : String) (c : Complaint) : Complaint := ⟨activity, c.text :: c.causes⟩

/-- A text whose further lines are set in. -/
def hanging (indent text : String) : String :=
  String.ofList (text.toList.flatMap fun c => if c = '\n' then '\n' :: indent.toList else [c])

/-- A number in at least five places. -/
def numberText (n : Nat) : String :=
  String.ofList (List.replicate (5 - (Nat.repr n).length) ' ') ++ Nat.repr n

/-- The causes, each on a line of its own. -/
def causeLines : List String → List String
  | [cause] => ["    " ++ hanging "    " cause]
  | causes =>
    causes.zipIdx.map fun e => numberText e.2 ++ ": " ++ hanging "       " e.1

def render (c : Complaint) : String :=
  let causes :=
    if c.causes.isEmpty then ""
    else "\n\nCaused by:\n" ++ "\n".intercalate (causeLines c.causes)
  "Error: " ++ c.text ++ causes ++ "\n"

end Complaint

end TraceFlow.Command
