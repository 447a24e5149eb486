/-
TraceFlow.Comparison — two function maps held against each other.

Functions are matched by name. Those that both maps have are walked in
lockstep from their entries; a function that only one map has is one
difference.
-/
import TraceFlow.Comparison.Pairing
import TraceFlow.FunctionMap

namespace TraceFlow

structure Comparison where
  differences : List Difference
  /-- The number of functions that both maps have. -/
  functionsCompared : Nat
deriving DecidableEq, Repr

namespace Comparison

def count (c : Comparison) : Nat := c.differences.length

def isIdentical (c : Comparison) : Bool := c.differences.isEmpty

/-- The differences of one function. -/
def forFunction (c : Comparison) (function : String) : List Difference :=
  c.differences.filter (·.function = function)

/-- The line behind a difference. -/
def rule : String := String.ofList (List.replicate 40 '=')

def text (c : Comparison) : String :=
  String.join (c.differences.map fun d => d.text ++ "\n" ++ rule ++ "\n") ++
    "Found " ++ Nat.repr c.count ++ " differences."

end Comparison

namespace FunctionMap

/-- The names of the functions of either map, in ascending order. -/
def unitedNames (a b : FunctionMap) : List String :=
  (NameSet.ofNames (a.functions.keys ++ b.functions.keys)).names

def bothHave (a b : FunctionMap) (function : String) : Bool :=
  a.functions.contains function && b.functions.contains function

def differencesIn (a b : FunctionMap) (function : String) : List Difference :=
  match a.functions.get? function, b.functions.get? function with
  | some l, some r =>
    (Pairing.walk a.graph b.graph l r).flatMap (Pairing.differences function a.graph b.graph)
  | some _, none => [.missing function .left]
  | none, some _ => [.missing function .right]
  | none, none => []

def compare (a b : FunctionMap) : Comparison where
  differences := (a.unitedNames b).flatMap (a.differencesIn b)
  functionsCompared := (a.unitedNames b).countP (a.bothHave b)

/-- What is noted on the way: the number of differences of each function that both maps have. -/
def compareNotes (a b : FunctionMap) : List Note :=
  ((a.unitedNames b).filter (a.bothHave b)).map fun function =>
    ⟨.info, function ++ ": " ++ Nat.repr (a.differencesIn b function).length ++ " differences"⟩

end FunctionMap

end TraceFlow
