/-
TraceFlow.Sheet.File — functions in files of their own.

Each function that lies inside no other gets a file named for it, with the
extension of its form. Writing stops at the first file that cannot be
written.
-/
import TraceFlow.Host
import TraceFlow.Sheet

namespace TraceFlow.Sheet.File

def path (dir function extension : String) : String :=
  Path.join dir (function ++ "." ++ extension)

variable {m : Type → Type} [Monad m] [Host m]

/-- Writes some functions in a form; gives the paths of their files. -/
def writeFrom (map : FunctionMap) (form : Format) (dir : String) :
    List (String × BlockId) → m (Except Failure (List String))
  | [] => return .ok []
  | (function, entry) :: rest => do
    let file := path dir function form.extension
    match ← Host.write file (Utf8.encode (map.sheet form function entry)) with
    | .error e => return .error (.file e)
    | .ok _ =>
      Host.note ⟨.debug, "Wrote " ++ file⟩
      match ← writeFrom map form dir rest with
      | .error e => return .error e
      | .ok files => return .ok (file :: files)

def write (map : FunctionMap) (form : Format) (dir : String) : m (Except Failure (List String)) :=
  writeFrom map form dir map.functions.entries

end TraceFlow.Sheet.File
