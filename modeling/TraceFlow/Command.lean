/-
TraceFlow.Command — the command line as a whole.

A command ends with a status: 0 if all went well and nothing differs, 1 if
something differs or failed, 2 if the command line is wrong.
-/
import TraceFlow.Command.Run

namespace TraceFlow.Command

structure Outcome where
  status : Nat
  /-- What is complained about. -/
  errors : String := ""
deriving DecidableEq, Repr

def versionText : String := "retrace 0.1.0\n"

def helpText : String :=
  "Usage: retrace [OPTIONS] <--dot|--svg|--cmp|--text|--json|--csv|--linear> <LOG>...\n\n" ++
    "  -o, --output-dir <DIR>  Directory receiving one file per function\n" ++
    "      --dot               Write a drawing per function\n" ++
    "      --svg               Write a drawing per function, laid out\n" ++
    "      --cmp               Compare the graphs of the first two logs\n" ++
    "      --text              Write a text listing per function\n" ++
    "      --json              Write a JSON document per function\n" ++
    "      --csv               Write a CSV link table per function\n" ++
    "      --linear            Print a linear disassembly of each log\n" ++
    "  -k, --keep-lines        With --linear, keep the log lines\n" ++
    "  -n, --max-chunks <N>    With --linear, stop after this many chunks\n" ++
    "      --cache             Reuse and refresh graph caches\n" ++
    "      --cpu <CPU>         CPU that produced the logs: gb-z80\n" ++
    "  -v, --verbose           Show more notes\n" ++
    "  -h, --help              Print help\n" ++
    "  -V, --version           Print version\n"

def Misuse.text : Misuse → String
  | .unknownSwitch word => "error: unknown option " ++ word ++ "\n"
  | .unexpectedValue word => "error: option " ++ word ++ " takes no value\n"
  | .missingValue => "error: an option lacks its value\n"
  | .badValue value => "error: invalid value '" ++ value ++ "'\n"
  | .repeated => "error: an option is given twice\n"
  | .noLog => "error: no log is given\n"
  | .noAction => "error: nothing is asked for\n"
  | .needsLinear => "error: --keep-lines and --max-chunks require --linear\n"

/-- The level up to which a command shows notes. -/
def level (words : List String) : Level :=
  match Arguments.read words with
  | .ok a => a.level
  | .error _ => .info

def execute {m : Type → Type} [Monad m] [Host m] (words : List String) : m Outcome := do
  match Arguments.read words with
  | .error .version =>
    Host.print versionText
    return { status := 0 }
  | .error .help =>
    Host.print helpText
    return { status := 0 }
  | .error (.misuse misuse) => return { status := 2, errors := misuse.text }
  | .ok a =>
    match ← (run a).run with
    | .ok true => return { status := 0 }
    | .ok false => return { status := 1 }
    | .error c => return { status := 1, errors := c.render }

end TraceFlow.Command
