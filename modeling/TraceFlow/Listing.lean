/-
TraceFlow.Listing — a trace line by line, each chunk of it once.

Lines of two dashes cut a trace into chunks. The lines of a chunk are
disassembled, and a chunk whose text was not written before is written
when it ends.

* A line that is no text ends the listing; what was written stays
  written.
* The number of chunks may be limited. The limit is looked at where a
  chunk ends in the middle of a trace.
-/
import TraceFlow.Mnemonic
import TraceFlow.Text.Blank
import TraceFlow.Text.Lines
import TraceFlow.Text.Utf8
import TraceFlow.TraceLine
import Std.Data.HashSet.Lemmas

namespace TraceFlow

namespace Listing

structure Options where
  /-- Whether lines are kept, with what they mean behind them. -/
  keepLines : Bool := false
  /-- The number of chunks after which the listing ends. -/
  limit : Option Nat := none
deriving DecidableEq, Repr

/-- Whether a line ends a chunk: two dashes, whatever white space follows. -/
def isSeparator (line : List Char) : Bool := Text.trimEnd line = ['-', '-']

/-- What is listed for a line: the instruction that it records; lines that record none are listed
only if lines are kept. -/
def listed? (keepLines : Bool) (line : List Char) : Option String :=
  match TraceLine.read? line with
  | some (.instruction i) =>
    let label := Mnemonic.label i.opcode i.operand
    if keepLines then some (String.ofList line ++ " | DIS: " ++ label)
    else some (Hex.padded 4 i.pc ++ " - " ++ label)
  | _ => if keepLines then some (String.ofList line) else none

/-- The line that ends the text of a chunk. -/
def rule : String := String.ofList (List.replicate 20 '-')

/-- The text of a chunk: what is listed for its lines, and a rule. -/
def chunkText (entries : List String) : String := "\n".intercalate entries ++ "\n" ++ rule

end Listing

structure Listing where
  /-- The texts of the chunks that were written, in order. -/
  written : Array String := #[]
  /-- The same texts as a set, to look a text up in. -/
  seen : Std.HashSet String := ∅
  /-- What is listed for the lines of the chunk that has not ended, the last line first. -/
  pending : List String := []
  mem_seen : ∀ text, text ∈ seen ↔ text ∈ written := by simp
  nodup_written : written.toList.Nodup := by simp
  size_seen : seen.size = written.size := by simp

namespace Listing

/-- The listing after one more line of the chunk. -/
def add (keepLines : Bool) (l : Listing) (line : List Char) : Listing :=
  match listed? keepLines line with
  | some e => { l with pending := e :: l.pending }
  | none => l

/-- The text of the chunk that has not ended. -/
def text (l : Listing) : String := chunkText l.pending.reverse

/-- The listing with a text written to it that was not written before. -/
def write (l : Listing) (text : String) (new : text ∉ l.seen) : Listing where
  written := l.written.push text
  seen := l.seen.insert text
  mem_seen other := by
    rw [Std.HashSet.mem_insert, Array.mem_push, l.mem_seen, beq_iff_eq, @eq_comm _ other, or_comm]
  nodup_written := by
    rw [Array.toList_push]
    refine List.nodup_append.2 ⟨l.nodup_written, List.pairwise_singleton _ _, fun a ha b hb => ?_⟩
    rw [List.mem_singleton.1 hb]
    exact fun heq => new ((l.mem_seen text).2 (heq ▸ Array.mem_toList_iff.1 ha))
  size_seen := by
    rw [Std.HashSet.size_insert, if_neg new, Array.size_push, l.size_seen]

/-- The listing after the end of the chunk: an empty chunk, and one whose text was written before,
are not written. -/
def flush (l : Listing) : Listing :=
  if l.pending.isEmpty then l
  else
    let text := l.text
    if seen : text ∈ l.seen then { l with pending := [] } else l.write text seen

/-- The number of distinct chunks that were written. -/
def count (l : Listing) : Nat := l.seen.size

def isFull (o : Options) (l : Listing) : Bool :=
  match o.limit with
  | some n => n ≤ l.count
  | none => false

/-- The characters of a line of a trace, if it is text; one carriage return before its line feed
does not belong to it. -/
def lineText? (line : Text.Line UInt8) : Option (List Char) := Utf8.decode? (line.stripped 13)

/-- Goes on with a listing over lines. Gives the listing where it ends, and whether all lines that
were looked at are text. -/
def run (o : Options) : Listing → List (Text.Line UInt8) → Listing × Bool
  | l, [] => (l.flush, true)
  | l, line :: lines =>
    match lineText? line with
    | none => (l, false)
    | some text =>
      if isSeparator text then
        let flushed := l.flush
        if flushed.isFull o then (flushed, true) else run o flushed lines
      else run o (l.add o.keepLines text) lines

/-- The listing of a trace where it ends, and whether all lines that were looked at are text. -/
def follow (o : Options) (bytes : List UInt8) : Listing × Bool := run o {} (Text.cut 10 bytes)

/-- The texts of the chunks of a trace, and whether all lines that were looked at are text. -/
def ofTrace (o : Options) (bytes : List UInt8) : List String × Bool :=
  let (l, complete) := follow o bytes
  (l.written.toList, complete)

def printed (chunks : List String) : String := String.join (chunks.map (· ++ "\n"))

end Listing

end TraceFlow
