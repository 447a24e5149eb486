/-
TraceFlow.Note — what the program says while it works.

A note has a level and a text. Computations give their notes as lists;
only the outermost layer writes them, each as a line that gives a terminal
no orders.
-/
import TraceFlow.Text.Terminal

namespace TraceFlow

inductive Level where
  | error
  | warn
  | info
  | debug
  | trace
deriving DecidableEq, Repr

namespace Level

def name : Level → String
  | .error => "ERROR"
  | .warn => "WARN"
  | .info => "INFO"
  | .debug => "DEBUG"
  | .trace => "TRACE"

/-- The level's place in order of importance, the most important level first. -/
def rank : Level → Nat
  | .error => 0
  | .warn => 1
  | .info => 2
  | .debug => 3
  | .trace => 4

end Level

structure Note where
  level : Level
  text : String
deriving DecidableEq, Repr

namespace Note

/-- Whether a note is shown when those of `level` and the more important ones are. -/
def shownAt (level : Level) (n : Note) : Bool := n.level.rank ≤ level.rank

def visible (level : Level) (notes : List Note) : List Note := notes.filter (·.shownAt level)

/-- The note as a line: its level between brackets in five columns, then its text; further lines
of the text are set in by four spaces. Of orders to a terminal, nothing is left. -/
def line (n : Note) : String :=
  let level := n.level.name
  let fill := String.ofList (List.replicate (5 - level.length) ' ')
  let text := n.text.toList.flatMap fun c => if c = '\n' then "\n    ".toList else [c]
  Terminal.shown ("[" ++ level ++ fill ++ "] " ++ String.ofList text ++ "\n")

end Note

end TraceFlow
