/-
TraceFlow.Volume — files and directories as a value.

A volume holds every file and directory under the path that leads to it
from the top, and the time at which it was last written, that of the top
included. The top is the root and the working directory in one: a path
leads from there whether it begins with a slash or not, and `..` stays
there. Paths are followed part by part, so that `a/../b` needs a directory
`a`. Writing a file stamps it with the volume's clock; creating or removing
one stamps the directory that it lies in as well.
-/
import TraceFlow.Failure
import TraceFlow.Path
import TraceFlow.SortedMap

namespace TraceFlow

inductive Node where
  | file (content : List UInt8) (modified : Int)
  | directory (modified : Int)
deriving DecidableEq, Repr

namespace Node

def isDirectory : Node → Bool
  | .directory _ => true
  | .file _ _ => false

def modified : Node → Int
  | .file _ t => t
  | .directory t => t

def stamped (t : Int) : Node → Node
  | .file content _ => .file content t
  | .directory _ => .directory t

end Node

structure Volume where
  /-- The files and directories below the top, by their paths from there. -/
  nodes : SortedMap String Node := ∅
  clock : Int := 0
  topModified : Int := clock
deriving DecidableEq

namespace Volume

/-- A place in a volume: the names of the directories that lead to it, and its own. -/
abbrev Spot := List String

/-- The path of a spot from the top. -/
def Spot.path (s : Spot) : String := "/".intercalate s

def at? (v : Volume) (s : Spot) : Option Node :=
  if s.isEmpty then some (.directory v.topModified) else v.nodes.get? s.path

/-- The volume with something at a spot; the top stays a directory. -/
def put (v : Volume) (s : Spot) (n : Node) : Volume :=
  if s.isEmpty then { v with topModified := n.modified }
  else { v with nodes := v.nodes.insert s.path n }

def later (v : Volume) (ticks : Int) : Volume := { v with clock := v.clock + ticks }

/-! ## Following paths -/

def parts (path : List Char) : List String := (Path.parts path).map String.ofList

/-- What is at a spot in an existing directory; a name has at most 255 bytes. -/
def look (v : Volume) (s : Spot) : Except FileError (Option Node) :=
  if 255 < (s.getLast?.getD "").utf8ByteSize then .error .nameTooLong else .ok (v.at? s)

/-- The spot that one part leads to, which has to be a directory. -/
def enter (v : Volume) (s : Spot) (part : String) : Except FileError Spot :=
  if part = "" ∨ part = "." then .ok s
  else if part = ".." then .ok s.dropLast
  else
    match v.look (s ++ [part]) with
    | .error e => .error e
    | .ok none => .error .notFound
    | .ok (some n) => if n.isDirectory then .ok (s ++ [part]) else .error .notDirectory

/-- Whether a part is a name, and not a way to go. -/
def isName (part : String) : Bool := !(part = "" || part = "." || part = "..")

/-- Whether a path can be followed at all: it is not empty, holds no NUL and fewer than 4096
bytes. -/
def checkPath (path : String) : Except FileError Unit :=
  if path.toList.contains '\x00' then .error .nulInName
  else if 4096 ≤ path.utf8ByteSize then .error .nameTooLong
  else if path.isEmpty then .error .notFound
  else .ok ()

def find (v : Volume) (path : String) : Except FileError Node := do
  checkPath path
  let ps := parts path.toList
  let last := ps.getLast?.getD ""
  let dir ← ps.dropLast.foldlM v.enter []
  let spot ← if isName last then pure (dir ++ [last]) else v.enter dir last
  match ← v.look spot with
  | some n => return n
  | none => throw .notFound

/-- The spot at which a path would create something, and whether the path ends like one of a
directory. -/
def target (v : Volume) (path : String) : Except FileError (Spot × Bool) := do
  checkPath path
  let closed := path.toList.getLast? = some '/'
  let core := (path.toList.reverse.dropWhile (· = '/')).reverse
  let ps := parts core
  let last := ps.getLast?.getD ""
  let dir ← ps.dropLast.foldlM v.enter []
  if isName last then return (dir ++ [last], closed)
  else return (← v.enter dir last, true)

/-- The volume in which the directory of a spot was written just now. -/
def touchParent (v : Volume) (s : Spot) : Volume :=
  match v.at? s.dropLast with
  | some n => v.put s.dropLast (n.stamped v.clock)
  | none => v

/-! ## Files -/

/-- The bytes of a file, or why it has none; a directory can be opened but not read. -/
def content (v : Volume) (path : String) : Except FileError (Except FileError (List UInt8)) := do
  match ← v.find path with
  | .file bytes _ => return .ok bytes
  | .directory _ => return .error .isDirectory

/-- Writes a file, in place of any content that it has. -/
def write (v : Volume) (path : String) (bytes : List UInt8) : Except FileError Volume := do
  let (s, closed) ← v.target path
  if closed then throw .isDirectory
  match ← v.look s with
  | some (.directory _) => throw .isDirectory
  | some (.file _ _) => return v.put s (.file bytes v.clock)
  | none => return (v.put s (.file bytes v.clock)).touchParent s

/-- When a file or directory was last written. -/
def modified? (v : Volume) (path : String) : Option Int :=
  match v.find path with
  | .ok n => some n.modified
  | .error _ => none

def setModified (v : Volume) (path : String) (t : Int) : Except FileError Volume := do
  let n ← v.find path
  let (s, _) ← v.target path
  return v.put s (n.stamped t)

/-! ## Directories -/

def isDirectory (v : Volume) (path : String) : Bool :=
  match v.find path with
  | .ok n => n.isDirectory
  | .error _ => false

def makeDirectory (v : Volume) (path : String) : Except FileError Volume := do
  let (s, _) ← v.target path
  match ← v.look s with
  | some _ => throw .exists
  | none => return (v.put s (.directory v.clock)).touchParent s

def remove (v : Volume) (path : String) : Except FileError Volume := do
  let _ ← v.find path
  let (s, _) ← v.target path
  return Volume.touchParent { v with nodes := v.nodes.erase s.path } s

/-- The files of a volume, by their paths from the top. -/
def files (v : Volume) : List (String × List UInt8) :=
  v.nodes.entries.filterMap fun e =>
    match e.2 with
    | .file bytes _ => some (e.1, bytes)
    | .directory _ => none

end Volume

end TraceFlow
