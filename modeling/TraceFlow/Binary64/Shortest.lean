/-
TraceFlow.Binary64.Shortest — the fewest decimal digits that stand for a
binary64 number.

* Every decimal between the midpoints to a number's two neighbours is read
  as that number; the midpoints themselves are if the number is even
  (`isReadFrom`).
* Decimals are tried from large powers of ten to small ones. On each only
  the two around the number can be read as it (`onPower?`); of two that
  are, the nearer one counts, of two equally near ones the even one.
-/
import TraceFlow.Binary64

namespace TraceFlow.Binary64

/-- A decimal: a whole number of some power of ten. -/
structure Decimal where
  digits : Nat
  exponent : Int
deriving DecidableEq, Repr

namespace Decimal

def scale (d : Decimal) : Nat := if 0 ≤ d.exponent then Nat.pow 10 d.exponent.toNat else 1

def divisor (d : Decimal) : Nat := if 0 ≤ d.exponent then 1 else Nat.pow 10 d.exponent.natAbs

end Decimal

/-! ## The decimals of a number -/

/-- The midpoint to the next smaller number, in quarters of a unit; below a power of two the numbers
are twice as close. -/
def lowerMidpoint (x : Binary64) : Nat :=
  let gap := spacing x.units
  if x.units = Nat.pow 2 (Nat.log2 x.units) ∧ 1 < gap then 4 * x.units - gap
  else 4 * x.units - 2 * gap

/-- The midpoint to the next larger number, in quarters of a unit. -/
def upperMidpoint (x : Binary64) : Nat := 4 * x.units + 2 * spacing x.units

def isEven (x : Binary64) : Bool := x.units / spacing x.units % 2 = 0

/-- Whether a decimal is read as the number. -/
def isReadFrom (x : Binary64) (d : Decimal) : Bool :=
  let value := 4 * oneUnits * (d.digits * d.scale)
  let low := x.lowerMidpoint * d.divisor
  let high := x.upperMidpoint * d.divisor
  if x.isEven then low ≤ value ∧ value ≤ high else low < value ∧ value < high

/-- The decimal of a power of ten that is read as the number and nearest to it, if there is one. -/
def onPower? (x : Binary64) (exponent : Int) : Option Decimal :=
  let one : Decimal := ⟨1, exponent⟩
  let value := x.units * one.divisor
  let cell := oneUnits * one.scale
  let below : Decimal := ⟨value / cell, exponent⟩
  let above : Decimal := ⟨value / cell + 1, exponent⟩
  let nearest := if nearestWhole value cell = below.digits then below else above
  let other := if nearestWhole value cell = below.digits then above else below
  [nearest, other].find? x.isReadFrom

/-- The exponents to try, from beyond the largest number to below the least one. -/
def exponents : List Int := (List.range 634).map fun (n : Nat) => (309 : Int) - n

def exactly (x : Binary64) : Decimal := ⟨x.units * Nat.pow 5 1074, -1074⟩

/-- The decimal of fewest digits that is read as the number. -/
def shortest (x : Binary64) : Decimal := (exponents.findSome? x.onPower?).getD x.exactly

end TraceFlow.Binary64
