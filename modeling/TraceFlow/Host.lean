/-
TraceFlow.Host — what the program needs of its surroundings.

A host reads and writes files, knows when they were written, starts the
layout tool, prints, and takes notes. The program is written once against
this class; `Session` is the host that is a value.
-/
import TraceFlow.Failure
import TraceFlow.Note
import TraceFlow.Path
import TraceFlow.Text.Blank
import TraceFlow.Text.IllFormed

namespace TraceFlow

inductive Reading where
  /-- The file could not be opened. -/
  | closed (reason : FileError)
  /-- The file could be opened, but not read. -/
  | unreadable (reason : FileError)
  | bytes (content : List UInt8)
deriving DecidableEq, Repr

/-- The bytes that were read, or why there are none. -/
def Reading.toExcept : Reading → Except FileError (List UInt8)
  | .closed reason => .error reason
  | .unreadable reason => .error reason
  | .bytes content => .ok content

structure LayoutRun where
  ending : Ending
  output : List UInt8
  errors : List UInt8
deriving DecidableEq, Repr

/-- The text that the layout tool wrote, if it ended well. -/
def LayoutRun.result (r : LayoutRun) : Except LayoutError String :=
  if r.ending ≠ .status 0 then
    .error (.failed r.ending (String.ofList (Text.trim (Utf8.lossy r.errors))))
  else
    match Utf8.decode? r.output with
    | some text => .ok (String.ofList text)
    | none => .error (.notText (((Utf8.illFormed? r.output).map (·.text)).getD ""))

/-- Surroundings of the program. -/
class Host (m : Type → Type) where
  read : String → m Reading
  /-- Writes a file, in place of any content that it has. -/
  write : String → List UInt8 → m (Except FileError Unit)
  /-- When a file was last written, if that is known. -/
  modified? : String → m (Option Int)
  isDirectory : String → m Bool
  makeDirectory : String → m (Except FileError Unit)
  /-- Starts the layout tool on a drawing. -/
  layout : String → m (Except Failure LayoutRun)
  print : String → m Unit
  note : Note → m Unit

namespace Host

variable {m : Type → Type} [Monad m] [Host m]

def noteAll : List Note → m Unit
  | [] => pure ()
  | n :: ns => do
    note n
    noteAll ns

/-- Creates a directory; one that is there is as good. -/
def ensureDirectory (path : String) : m (Except FileError Unit) := do
  match ← makeDirectory path with
  | .ok _ => return .ok ()
  | .error e => if ← isDirectory path then return .ok () else return .error e

/-- Creates a directory and those that it lies in, in at most `fuel` levels. -/
def makeDirectoriesIn : Nat → String → m (Except FileError Unit)
  | 0, _ => return .error .noTree
  | fuel + 1, path => do
    if path.isEmpty then return .ok ()
    match ← makeDirectory path with
    | .ok _ => return .ok ()
    | .error .notFound =>
      match Path.parent? path with
      | none => return .error .noTree
      | some parent =>
        match ← makeDirectoriesIn fuel parent with
        | .error e => return .error e
        | .ok _ => ensureDirectory path
    | .error e => if ← isDirectory path then return .ok () else return .error e

def makeDirectories (path : String) : m (Except FileError Unit) :=
  makeDirectoriesIn (path.length + 1) path

def drawn (drawing : String) : m (Except Failure String) := do
  match ← layout drawing with
  | .error e => return .error e
  | .ok run =>
    match run.result with
    | .ok text => return .ok text
    | .error e => return .error (.layout e)

end Host

end TraceFlow
