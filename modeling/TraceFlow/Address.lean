/-
TraceFlow.Address — addresses of the traced machine and the distances
between them.

`displacement` is the distance between two addresses as a signed 64-bit
word, which is what instruction sizes are held against; below 2^63 it is
the plain difference (`displacement_eq`).
-/
import TraceFlow.Word

namespace TraceFlow

abbrev Address := Nat

/-- A number read as a signed 64-bit word. -/
def signed64 (n : Int) : Int := n.bmod (wordSize 64)

/-- The distance from one address to another, as a signed 64-bit word. -/
def displacement (a b : Nat) : Int := signed64 ((b : Int) - (a : Int))

theorem signed64_eq {n : Int} (h₁ : -(wordSize 63 : Int) ≤ n) (h₂ : n < wordSize 63) :
    signed64 n = n := by
  unfold signed64
  rw [wordSize_63] at h₁ h₂
  rw [wordSize_64, Int.bmod_eq_of_le] <;> omega

/-- Below 2^63 a displacement is the plain difference. -/
theorem displacement_eq {a b : Nat} (ha : a < wordSize 63) (hb : b < wordSize 63) :
    displacement a b = (b : Int) - a := by
  apply signed64_eq <;> omega

end TraceFlow
