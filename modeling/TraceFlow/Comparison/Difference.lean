/-
TraceFlow.Comparison.Difference — what can differ between two function
maps.

A difference keeps names and listings, so that it can be told without the
maps that it was found in.
-/

namespace TraceFlow

inductive Side where
  | left
  | right
deriving DecidableEq, Repr

namespace Side

def text : Side → String
  | .left => "graph 1"
  | .right => "graph 2"

def swap : Side → Side
  | .left => .right
  | .right => .left

end Side

inductive Difference where
  /-- A function that only one map has. -/
  | missing (function : String) (presentIn : Side)
  /-- Two blocks in the same place whose contents differ. -/
  | mismatch (function left right leftListing rightListing : String)
  /-- A block that is reached on one side only. -/
  | oneSided (function block : String) (presentIn : Side) (listing : String)
deriving DecidableEq, Repr

namespace Difference

def function : Difference → String
  | .missing f _ => f
  | .mismatch f _ _ _ _ => f
  | .oneSided f _ _ _ => f

/-- The difference as it is between the same maps in the other order. -/
def swap : Difference → Difference
  | .missing f side => .missing f side.swap
  | .mismatch f left right leftListing rightListing =>
    .mismatch f right left rightListing leftListing
  | .oneSided f block side listing => .oneSided f block side.swap listing

/-- The line between two listings. -/
def rule : String := String.join (List.replicate 20 "- ")

def text : Difference → String
  | .missing f side => "Function " ++ f ++ " only exists in " ++ side.text ++ "."
  | .mismatch f left right leftListing rightListing =>
    "In " ++ f ++ ", blocks " ++ left ++ " and " ++ right ++ " differ:\n" ++
      leftListing ++ "\n" ++ rule ++ "\n" ++ rightListing
  | .oneSided f block side listing =>
    "In " ++ f ++ ", block " ++ block ++ " is only reachable in " ++ side.text ++ ":\n" ++ listing

end Difference

end TraceFlow
