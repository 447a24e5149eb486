/-
TraceFlow.Text.IllFormed — where bytes stop being text.

`illFormed?` finds the first sequence of bytes that is no character: one
that no byte can complete, or one that the end cuts off. It has nothing to
find exactly where `decode?` succeeds.
-/
import TraceFlow.Text.Utf8

namespace TraceFlow.Utf8

/-- A sequence of bytes that is no character. -/
inductive IllFormed where
  /-- A sequence of some length, from a place on, that no byte can complete. -/
  | broken (start length : Nat)
  /-- A sequence, from a place on, that the end cuts off. -/
  | cutOff (start : Nat)
deriving DecidableEq, Repr

def IllFormed.start : IllFormed → Nat
  | .broken start _ => start
  | .cutOff start => start

def IllFormed.text : IllFormed → String
  | .broken start length =>
    "invalid utf-8 sequence of " ++ Nat.repr length ++ " bytes from index " ++ Nat.repr start
  | .cutOff start => "incomplete utf-8 byte sequence from index " ++ Nat.repr start

/-- The first ill-formed sequence of bytes that begin at `place`, going on with the sequence that is
open since `start`. -/
def illFormedFrom (open? : Option Begun) (start place : Nat) : List UInt8 → Option IllFormed
  | [] => if open?.isSome then some (.cutOff start) else none
  | b :: bs =>
    match open? with
    | none =>
      match lead b.toNat with
      | .whole => illFormedFrom none (place + 1) (place + 1) bs
      | .begins s => illFormedFrom (some s) place (place + 1) bs
      | .bad => some (.broken place 1)
    | some s =>
      if s.low ≤ b.toNat ∧ b.toNat ≤ s.high then
        if s.more ≤ 1 then illFormedFrom none (place + 1) (place + 1) bs
        else
          let bits := 64 * s.bits + b.toNat % 64
          illFormedFrom (some ⟨s.more - 1, 0x80, 0xBF, bits⟩) start (place + 1) bs
      else some (.broken start (place - start))

def illFormed? (bytes : List UInt8) : Option IllFormed := illFormedFrom none 0 0 bytes

/-- How many bytes there are before the first ill-formed sequence. -/
def wellFormedLength (bytes : List UInt8) : Nat :=
  ((illFormed? bytes).map (·.start)).getD bytes.length

end TraceFlow.Utf8
