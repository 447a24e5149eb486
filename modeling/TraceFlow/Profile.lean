/-
TraceFlow.Profile — how a CPU's opcodes move control.

* `OpcodeClass` is a set of first opcode bytes whose instructions have
  one size; `Flow` names the five classes.
* `Profile` holds the classes, the width of the address bus, the longest
  instruction and the interrupt vectors of a CPU. The synthetic blocks
  before and after a trace stand at `beginAddress` and `endAddress`, just
  past the address space.

Instruction sizes are held against displacements, so a class gives its
size as one (`OpcodeClass.offset`).
-/
import TraceFlow.Address

namespace TraceFlow

inductive Flow where
  | call
  | jump
  | jr
  | ret
  /-- Software interrupt: a restart at a vector. -/
  | interruptEntry
deriving DecidableEq, Repr

/-- Opcodes that share one instruction size. -/
structure OpcodeClass where
  /-- The first opcode byte of every member. -/
  opcodes : List UInt8
  /-- The size of a member in bytes, opcode included. -/
  size : Nat
deriving DecidableEq, Repr

namespace OpcodeClass

/-- Whether an opcode belongs to the class; its first byte decides. -/
def contains (c : OpcodeClass) (opcode : List UInt8) : Bool :=
  match opcode with
  | [] => false
  | first :: _ => c.opcodes.contains first

def offset (c : OpcodeClass) : Int := signed64 c.size

end OpcodeClass

/-- What the reconstruction knows of a CPU. -/
structure Profile where
  name : String
  /-- Width of the address bus in bits. -/
  addressWidth : Nat
  maxInstructionSize : Nat
  call : OpcodeClass
  jump : OpcodeClass
  jr : OpcodeClass
  ret : OpcodeClass
  interruptEntry : OpcodeClass
  /-- Addresses where interrupt handlers start. -/
  interruptVectors : List Nat
deriving DecidableEq, Repr

namespace Profile

/-- The Game Boy's LR35902. -/
def gameBoy : Profile where
  name := "GB Z80"
  addressWidth := 16
  maxInstructionSize := 3
  call := ⟨[0xC4, 0xCC, 0xCD, 0xD4, 0xDC], 3⟩
  jump := ⟨[0xC2, 0xC3, 0xCA, 0xD2, 0xDA, 0xE9], 3⟩
  jr := ⟨[0x18, 0x20, 0x28, 0x30, 0x38], 2⟩
  ret := ⟨[0xC0, 0xC8, 0xC9, 0xD0, 0xD8, 0xD9], 1⟩
  interruptEntry := ⟨[0xC7, 0xCF, 0xD7, 0xDF, 0xE7, 0xEF, 0xF7, 0xFF], 1⟩
  interruptVectors := (List.range 13).map (8 * ·)

/-- Address of the block before the trace: the first one past the address space. A 64-bit word
holds it, and shifting one takes the width modulo 64. -/
def beginAddress (p : Profile) : Address := wordSize (p.addressWidth % 64)

def endAddress (p : Profile) : Address := p.beginAddress + 1

def addressDigits (p : Profile) : Nat := (p.addressWidth + 3) / 4

/-- Whether an interrupt handler may start at `pc`. -/
def isInterruptVector (p : Profile) (pc : Address) : Bool := p.interruptVectors.contains pc

def opcodeClass (p : Profile) : Flow → OpcodeClass
  | .call => p.call
  | .jump => p.jump
  | .jr => p.jr
  | .ret => p.ret
  | .interruptEntry => p.interruptEntry

/-- How an opcode moves control, if it does; an opcode in several classes counts as a return
first, then as a call, a jump, a relative jump. -/
def classify (p : Profile) (opcode : List UInt8) : Option Flow :=
  [Flow.ret, .call, .jump, .jr, .interruptEntry].find? fun flow =>
    (p.opcodeClass flow).contains opcode

end Profile

/-! ## CPUs -/

inductive Cpu where
  | gameBoy
deriving DecidableEq, Repr

namespace Cpu

def profile : Cpu → Profile
  | .gameBoy => .gameBoy

def name (cpu : Cpu) : String := cpu.profile.name

def option : Cpu → String
  | .gameBoy => "gb-z80"

def ofOption? (name : String) : Option Cpu :=
  [Cpu.gameBoy].find? fun cpu => cpu.option = name

end Cpu

end TraceFlow
