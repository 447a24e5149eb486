/-
TraceFlow.Main — the program.

The surroundings here are the real ones. The times at which files were
written are not known, so that an archive never counts as fresh and is
written anew; and no layout tool can be started.
-/
import TraceFlow.Command

namespace TraceFlow

/-- The real surroundings, and the level up to which notes are shown. -/
abbrev Console := ReaderT Level IO

namespace Console

def fileError : IO.Error → FileError
  | .noFileOrDirectory .. => .notFound
  | .alreadyExists .. => .exists
  | .inappropriateType _ code _ => if code = 20 then .notDirectory else .isDirectory
  | e => .other e.toString

def attempt {α : Type} (action : IO α) : IO (Except FileError α) := do
  try return .ok (← action)
  catch e => return .error (fileError e)

def readFile (path : String) : IO Reading := do
  match ← attempt (IO.FS.Handle.mk path .read) with
  | .error e => return .closed e
  | .ok handle =>
    match ← attempt handle.readBinToEnd with
    | .error e => return .unreadable e
    | .ok bytes => return .bytes bytes.toList

/-- Whether a path leads to something that can be opened, but not read like a file. -/
def opensAsDirectory (path : String) : IO Bool := do
  match ← readFile path with
  | .unreadable .isDirectory => return true
  | _ => return false

instance : Host Console where
  read path := readFile path
  write path bytes := attempt (IO.FS.writeBinFile path (ByteArray.mk bytes.toArray))
  modified? _ := return none
  isDirectory path := opensAsDirectory path
  makeDirectory path := attempt (IO.FS.createDir path)
  layout _ := return .error (.layout (.notStarted (.other "Operation not supported (os error 95)")))
  print text := do (← IO.getStdout).putStr text
  note n := do
    if n.shownAt (← read) then (← IO.getStderr).putStr n.line

end Console

end TraceFlow

def main (words : List String) : IO UInt32 := do
  let run : TraceFlow.Console TraceFlow.Command.Outcome := TraceFlow.Command.execute words
  let outcome ← run.run (TraceFlow.Command.level words)
  (← IO.getStderr).putStr outcome.errors
  return UInt32.ofNat outcome.status
