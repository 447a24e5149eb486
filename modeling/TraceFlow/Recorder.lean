/-
TraceFlow.Recorder — the state that follows a trace, and its steps.

* A recorder holds the graph so far, the block executed last (`cursor`),
  the calls and interrupts that are still to return (`backtrace`, the
  innermost first) and whether an interrupt was announced.
* `record` takes one instruction: it finds the instruction's block,
  settles a return that was taken (`settleReturn`), enters a handler or
  classifies the step (`transfer`), and draws the edge.
* `feed` takes a record; instructions past the address space are left
  out, since the blocks before and after the trace stand there.
* `finish` closes the trace with its last block.
-/
import TraceFlow.Graph.Links
import TraceFlow.Diagnostic
import TraceFlow.TraceLine

namespace TraceFlow

/-- Where a call or interrupt is expected to return. -/
inductive Landing where
  /-- At a displacement from the site. -/
  | past (offset : Int)
  /-- Anywhere: an interrupt came after an instruction of unknown size. -/
  | anywhere
deriving DecidableEq, Repr

/-- A call or interrupt that has not returned yet. -/
structure Frame where
  /-- The block that called or was interrupted. -/
  site : BlockId
  /-- Where the return is expected. -/
  landing : Landing
deriving DecidableEq, Repr

/-- What does not change while a trace is followed. -/
structure Setup where
  profile : Profile
  /-- Gives new instructions their labels. -/
  label? : Option (Instruction → String) := none

/-- An instruction as its block is to show it. -/
def Setup.labelled (s : Setup) (inst : Instruction) : Instruction :=
  match s.label? with
  | some label => { inst with label := some (label inst) }
  | none => inst

/-- The state that follows a trace. -/
structure Recorder where
  graph : Graph
  /-- The block before the trace. -/
  start : BlockId
  /-- The block executed last. -/
  cursor : BlockId
  /-- Calls and interrupts that have not returned, the innermost first. -/
  backtrace : List Frame := []
  /-- Whether an interrupt was announced since the last instruction. -/
  interruptPending : Bool := false
  /-- What could not be explained so far, the latest first. -/
  diagnostics : List Diagnostic := []
  tally : Tally := {}
deriving DecidableEq

structure Recording where
  graph : Graph
  start : BlockId
  /-- The block after the trace. -/
  finish : BlockId
  diagnostics : List Diagnostic
  tally : Tally
deriving DecidableEq

/-! ## How a step moves control -/

/-- How a step is classified by the opcode it leaves and its displacement. -/
inductive Transfer where
  /-- A branch, jump or call that fell through. -/
  | notTaken
  | call
  | branch
  /-- Any other step. -/
  | plain
deriving DecidableEq, Repr

namespace Profile

/-- The class of a step: opcodes are looked up among calls, jumps and relative jumps, in that
order. -/
def transfer (p : Profile) (opcode : List UInt8) (offset : Int) : Transfer :=
  if p.call.contains opcode then
    if offset = p.call.offset then .notTaken else .call
  else if p.jump.contains opcode then
    if offset = p.jump.offset then .notTaken else .branch
  else if p.jr.contains opcode then
    if offset = p.jr.offset then .notTaken else .branch
  else .plain

/-- Whether a step is a return that was taken: one that did not fall through. -/
def returns (p : Profile) (opcode : List UInt8) (offset : Int) : Bool :=
  p.ret.contains opcode && offset != p.ret.offset

/-- Whether a step enters an interrupt handler: it arrives on a vector, and either an interrupt was
announced or no call, jump or plain step from just before explains the arrival. -/
def entersHandler (p : Profile) (announced : Bool) (pc : Address) (opcode : List UInt8)
    (offset : Int) : Bool :=
  p.isInterruptVector pc && (announced ||
    match p.classify opcode with
    | some .call | some .jump | some .jr => false
    | some .ret => offset != p.ret.offset
    | some .interruptEntry => true
    | none => !(0 < offset && offset ≤ signed64 p.maxInstructionSize))

end Profile

namespace Recorder

/-- The state before the first record: its last block is the one before the trace. -/
def new (p : Profile) : Recorder :=
  let (graph, start) := (Graph.forProfile p).insert (.marker p.beginAddress "BEGIN" false)
  { graph := graph, start := start, cursor := start }

/-! ## Returns -/

inductive Return where
  /-- The step is no return that was taken. -/
  | none
  | matched (frame : Frame)
  /-- No pending frame explains it. -/
  | missed
deriving DecidableEq, Repr

/-- Whether a return to `pc` belongs to a frame; one that an interrupt takes to a vector right away
belongs to any. -/
def belongs (p : Profile) (g : Graph) (pc : Address) (f : Frame) : Bool :=
  match f.landing with
  | .anywhere => true
  | .past offset => displacement (g.block f.site).pc pc = offset || p.isInterruptVector pc

/-- What a taken return to `pc` does to the innermost frame. -/
def settle (p : Profile) (g : Graph) (pc : Address) (backtrace : List Frame) : Return :=
  match backtrace with
  | [] => .missed
  | f :: _ => if belongs p g pc f then .matched f else .missed

/-! ## One instruction -/

/-- A step as it is judged before anything changes but the graph, which has the instruction's block
in it. -/
structure Arrival where
  target : BlockId
  pc : Address
  /-- The opcode that the step leaves. -/
  opcode : List UInt8
  offset : Int
  /-- The call or interrupt that the step ends. -/
  settled : Return
  /-- Whether the step enters an interrupt handler. -/
  enters : Bool
deriving DecidableEq, Repr

/-- Finds the block of an instruction, or creates it, and counts the instruction. -/
def place (s : Setup) (r : Recorder) (inst : Instruction) : Recorder × BlockId :=
  let (graph, target) := r.graph.place (s.labelled inst)
  ({ r with
      graph := graph
      tally := { r.tally with instructions := r.tally.instructions + 1 } }, target)

/-- Judges the step from the cursor to the block of an instruction at `pc`. The first instruction of
a trace is where execution starts and enters no handler. -/
def arrive (p : Profile) (r : Recorder) (target : BlockId) (pc : Address) : Arrival :=
  let last := r.graph.block r.cursor
  let opcode := last.lastOpcode
  let offset := displacement last.pc pc
  { target := target
    pc := pc
    opcode := opcode
    offset := offset
    settled := if p.returns opcode offset then settle p r.graph pc r.backtrace else .none
    enters := r.cursor != r.start && p.entersHandler r.interruptPending pc opcode offset }

/-- Where the edge of a step begins: at the site of the call that it ends, or else at the block
executed last. -/
def Arrival.origin (a : Arrival) (cursor : BlockId) : BlockId :=
  match a.settled with
  | .matched f => f.site
  | _ => cursor

/-- Takes the innermost frame away if the step is a return, and counts it; a return that misses is
reported. -/
def settleReturn (r : Recorder) (a : Arrival) : Recorder :=
  match a.settled with
  | .none => r
  | .matched _ =>
    { r with
      backtrace := r.backtrace.tail
      tally := { r.tally with returns := r.tally.returns + 1 } }
  | .missed =>
    { r with
      backtrace := r.backtrace.tail
      diagnostics := .returnMiss (r.graph.block r.cursor).pc a.pc r.tally.lines :: r.diagnostics
      tally := { r.tally with
        returns := r.tally.returns + 1
        returnMisses := r.tally.returnMisses + 1 } }

/-- Where an interrupt returns to: a return that it came upon still owes its landing, a software
interrupt returns behind itself, any other anywhere. -/
def Arrival.resume (p : Profile) (a : Arrival) : Landing :=
  match a.settled with
  | .matched f => f.landing
  | _ =>
    if p.interruptEntry.contains a.opcode then .past p.interruptEntry.offset else .anywhere

/-- Enters an interrupt handler: its block becomes one, and the place left is to be returned to. No
edge is drawn. -/
def enterHandler (p : Profile) (r : Recorder) (a : Arrival) : Recorder :=
  { r with
    graph := r.graph.modify a.target fun b => { b with kind := .handler }
    backtrace := ⟨a.origin r.cursor, a.resume p⟩ :: r.backtrace
    tally := { r.tally with interrupts := r.tally.interrupts + 1 } }

/-- Notes that the taken edge out of a block was found. -/
def foundTaken (g : Graph) (id : BlockId) : Graph :=
  g.modify id fun b => { b with takenFound := true }

/-- Draws the edge of a step that is neither a return nor the entry of a handler. Every taken call
is to be returned from, and its target begins a function; of a branch only the first taken edge is
marked as such. -/
def follow (p : Profile) (r : Recorder) (a : Arrival) : Recorder :=
  let site := r.cursor
  match p.transfer a.opcode a.offset with
  | .notTaken => { r with graph := r.graph.link site a.target (some .notTaken) 1 }
  | .call =>
    let entered := r.graph.modify a.target fun b =>
      if b.kind = .code then { b with kind := .subroutine } else b
    { r with
      graph := (foundTaken entered site).link site a.target (some .callTaken) 1
      backtrace := ⟨site, .past p.call.offset⟩ :: r.backtrace
      tally := { r.tally with calls := r.tally.calls + 1 } }
  | .branch =>
    if (r.graph.block site).takenFound then
      { r with graph := r.graph.link site a.target none 1 }
    else
      { r with graph := (foundTaken r.graph site).link site a.target (some .taken) 1 }
  | .plain => { r with graph := r.graph.link site a.target none 1 }

/-- Draws the edge of a step that enters no handler: a return leads on from its call, or is marked
as a miss; any other step is classified. -/
def draw (p : Profile) (r : Recorder) (a : Arrival) : Recorder :=
  match a.settled with
  | .matched f => { r with graph := r.graph.link f.site a.target none 1 }
  | .missed => { r with graph := r.graph.link r.cursor a.target (some .returnMiss) 1 }
  | .none => follow p r a

def move (p : Profile) (r : Recorder) (a : Arrival) : Recorder :=
  let settled := settleReturn r a
  let moved := if a.enters then enterHandler p settled a else draw p settled a
  { moved with interruptPending := false, cursor := a.target }

def record (s : Setup) (r : Recorder) (inst : Instruction) : Recorder :=
  let (placed, target) := place s r inst
  move s.profile placed (arrive s.profile placed target inst.pc)

/-! ## Records and lines -/

/-- The state after a line that tells nothing. -/
def skip (r : Recorder) : Recorder :=
  { r with tally := { r.tally with skippedLines := r.tally.skippedLines + 1 } }

def feed (s : Setup) (r : Recorder) : TraceRecord → Recorder
  | .instruction inst =>
    if s.profile.beginAddress ≤ inst.pc then r.skip else r.record s inst
  | .interrupt _ =>
    { r with
      interruptPending := true
      tally := { r.tally with interruptMarkers := r.tally.interruptMarkers + 1 } }

def countLine (r : Recorder) : Recorder :=
  { r with tally := { r.tally with lines := r.tally.lines + 1 } }

def feedLine (s : Setup) (r : Recorder) (line : List Char) : Recorder :=
  match TraceLine.read? line with
  | some rec => r.countLine.feed s rec
  | none => r.countLine.skip

def feedLines (s : Setup) (r : Recorder) (lines : List (List Char)) : Recorder :=
  lines.foldl (feedLine s) r

/-- Closes the trace with the block after it. -/
def finish (p : Profile) (r : Recorder) : Recording :=
  let (graph, finish) := r.graph.insert (.marker p.endAddress "END" false)
  { graph := graph.link r.cursor finish none 1
    start := r.start
    finish := finish
    diagnostics := r.diagnostics.reverse
    tally := { r.tally with pendingFrames := r.backtrace.length } }

end Recorder

end TraceFlow
