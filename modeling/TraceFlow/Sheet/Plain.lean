/-
TraceFlow.Sheet.Plain — a function as a plain listing.

A title, then for every block its name, its instructions and an arrow for
each edge out of it. A listing is a list of items, and `Item.render`
writes each of them.
-/
import TraceFlow.FunctionMap

namespace TraceFlow.Sheet.Plain

inductive Item where
  | title (function : String)
  | block (name listing : String)
  | arrow (target : String) (kind : LinkKind) (count : Nat)
  | noSuccessors
  /-- The end of a block. -/
  | blank
deriving DecidableEq, Repr

def Item.render : Item → String
  | .title function => "Function " ++ function ++ ":\n\n"
  | .block name listing => name ++ ":\n" ++ listing ++ "\n"
  | .arrow target kind count =>
    "  -> " ++ target ++ " (" ++ kind.name ++ " x" ++ Nat.repr count ++ ")\n"
  | .noSuccessors => "  No successors\n"
  | .blank => "\n"

/-- The arrows of a block, or the remark that it has none. -/
def arrows (g : Graph) (id : BlockId) : List Item :=
  match g.linksFrom id with
  | [] => [.noSuccessors]
  | links => links.map fun l => .arrow (g.name l.target) l.kind l.count

def blockItems (g : Graph) (id : BlockId) : List Item :=
  .block (g.name id) (g.listing id) :: (arrows g id ++ [.blank])

def items (m : FunctionMap) (function : String) (entry : BlockId) : List Item :=
  .title function :: (m.walk entry).flatMap (blockItems m.graph)

def render (m : FunctionMap) (function : String) (entry : BlockId) : String :=
  String.join ((items m function entry).map Item.render)

end TraceFlow.Sheet.Plain
