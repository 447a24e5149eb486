/-
TraceFlow.Word — how many values fit a word of some bits.
-/

namespace TraceFlow

/-- The number of values of a word of `bits` bits. -/
def wordSize (bits : Nat) : Nat := Nat.pow 2 bits

theorem wordSize_32 : wordSize 32 = 4294967296 := rfl

theorem wordSize_63 : wordSize 63 = 9223372036854775808 := rfl

theorem wordSize_64 : wordSize 64 = 18446744073709551616 := rfl

theorem wordSize_succ (bits : Nat) : wordSize (bits + 1) = 2 * wordSize bits := by
  unfold wordSize
  rw [Nat.pow_eq, Nat.pow_eq, Nat.pow_succ, Nat.mul_comm]

end TraceFlow
