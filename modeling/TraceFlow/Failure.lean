/-
TraceFlow.Failure — why something could not be done.

A failure is a cause; its wording is in one place. `Failure.chain` lists
what is said about it, the most general remark first.
-/
import TraceFlow.Format

namespace TraceFlow

inductive FileError where
  | notFound
  | exists
  /-- A part of the path is no directory. -/
  | notDirectory
  | isDirectory
  | nameTooLong
  /-- The path holds a NUL, which no name can. -/
  | nulInName
  | notText
  /-- The path cannot be resolved to its end. -/
  | noTree
  /-- Anything else, in words. -/
  | other (text : String)
deriving DecidableEq, Repr

def FileError.text : FileError → String
  | .notFound => "No such file or directory (os error 2)"
  | .exists => "File exists (os error 17)"
  | .notDirectory => "Not a directory (os error 20)"
  | .isDirectory => "Is a directory (os error 21)"
  | .nameTooLong => "File name too long (os error 36)"
  | .nulInName => "file name contained an unexpected NUL byte"
  | .notText => "stream did not contain valid UTF-8"
  | .noTree => "failed to create whole tree"
  | .other text => text

inductive Ending where
  | status (n : Nat)
  | signal (n : Nat)
deriving DecidableEq, Repr

/-- The names of the signals, from the first one on. -/
def signalNames : List String :=
  ["SIGHUP", "SIGINT", "SIGQUIT", "SIGILL", "SIGTRAP", "SIGABRT", "SIGBUS", "SIGFPE", "SIGKILL",
    "SIGUSR1", "SIGSEGV", "SIGUSR2", "SIGPIPE", "SIGALRM", "SIGTERM", "SIGSTKFLT", "SIGCHLD",
    "SIGCONT", "SIGSTOP", "SIGTSTP", "SIGTTIN", "SIGTTOU", "SIGURG", "SIGXCPU", "SIGXFSZ",
    "SIGVTALRM", "SIGPROF", "SIGWINCH", "SIGIO", "SIGPWR", "SIGSYS"]

/-- How the layout tool ended, in words; signals beyond the named ones have only a number. -/
def Ending.text : Ending → String
  | .status n => "exit status: " ++ Nat.repr n
  | .signal n =>
    let name := if n = 0 then none else signalNames[n - 1]?
    "signal: " ++ Nat.repr n ++ ((name.map fun s => " (" ++ s ++ ")").getD "")

inductive LayoutError where
  | notStarted (reason : FileError)
  /-- The layout tool ended otherwise than with status zero. -/
  | failed (ending : Ending) (errors : String)
  | notText (reason : String)
deriving DecidableEq, Repr

def LayoutError.text : LayoutError → String
  | .notStarted reason => "could not run dot: " ++ reason.text
  | .failed ending errors => "dot exited with " ++ ending.text ++ ": " ++ errors
  | .notText reason => "dot produced invalid UTF-8: " ++ reason

inductive Failure where
  | file (e : FileError)
  | layout (e : LayoutError)
  | unknownFunction (name : String)
  | unknownFormat (word : String)
deriving DecidableEq, Repr

namespace Failure

def text : Failure → String
  | .file e => "I/O error: " ++ e.text
  | .layout e => "External tool error: " ++ e.text
  | .unknownFunction name => "Unknown function: " ++ name
  | .unknownFormat word => Format.unknownText word

/-- What is said about the failure, and then about the causes behind it. -/
def chain : Failure → List String
  | .file e => [(Failure.file e).text, e.text]
  | f => [f.text]

end Failure

end TraceFlow
