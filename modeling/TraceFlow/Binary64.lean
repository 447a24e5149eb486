/-
TraceFlow.Binary64 — binary64 numbers without a sign, in exact arithmetic.

A number is a count of units, where a unit is the least positive number
and one is 2^1074 units. The larger a count, the farther apart the counts
that are numbers: there are 2^52 of them in every stretch from a power of
two to the next (`spacing`), and every count below 2^53 is one.

Results are rounded to the nearest number, of two equally near ones to the
even one (`ofQuotient?`); a result beyond the largest number is none.
-/

namespace TraceFlow

namespace Binary64

/-- The distance between the numbers around a count of units. -/
def spacing (units : Nat) : Nat := Nat.pow 2 (Nat.log2 units - 52)

def oneUnits : Nat := Nat.pow 2 1074

/-- The least power of two beyond all numbers, in units. -/
def limitUnits : Nat := Nat.pow 2 2098

end Binary64

/-- A binary64 number that is not negative and not infinite. -/
structure Binary64 where
  units : Nat
  isSpaced : units % Binary64.spacing units = 0
deriving DecidableEq, Repr

namespace Binary64

/-! ## Rounding -/

/-- The whole number nearest to a quotient, of two equally near ones the even one. -/
def nearestWhole (num den : Nat) : Nat :=
  let whole := num / den
  let twice := 2 * (num % den)
  if den < twice ∨ (twice = den ∧ whole % 2 = 1) then whole + 1 else whole

theorem nearestWhole_le (num den : Nat) : nearestWhole num den ≤ num / den + 1 := by
  simp only [nearestWhole]
  split <;> omega

/-- A count below a power of two is at most 2^53 of its own spacings. -/
theorem div_spacing_lt (n : Nat) : n / spacing n < Nat.pow 2 53 := by
  unfold spacing
  rw [Nat.pow_eq, Nat.pow_eq, Nat.div_lt_iff_lt_mul (Nat.pow_pos (by decide)), ← Nat.pow_add]
  exact Nat.lt_of_lt_of_le Nat.lt_log2_self (Nat.pow_le_pow_right (by decide) (by omega))

/-- At most 2^53 steps of a power of two are a count that is a number. -/
theorem mul_mod_spacing {q s : Nat} (h : q ≤ Nat.pow 2 53) :
    q * Nat.pow 2 s % spacing (q * Nat.pow 2 s) = 0 := by
  apply Nat.mod_eq_zero_of_dvd
  unfold spacing
  simp only [Nat.pow_eq] at h ⊢
  by_cases hq : q = 0
  · simp [hq]
  have hpos : q * 2 ^ s ≠ 0 := Nat.mul_ne_zero hq (Nat.ne_of_gt (Nat.pow_pos (by decide)))
  by_cases htop : q = 2 ^ 53
  · subst htop
    rw [← Nat.pow_add, Nat.log2_two_pow]
    exact Nat.pow_dvd_pow 2 (by omega)
  · have hlt : q * 2 ^ s < 2 ^ (53 + s) := by
      rw [Nat.pow_add]
      exact Nat.mul_lt_mul_of_pos_right (by omega) (Nat.pow_pos (by decide))
    have hlog : Nat.log2 (q * 2 ^ s) < 53 + s := (Nat.log2_lt hpos).2 hlt
    exact Nat.dvd_trans (Nat.pow_dvd_pow 2 (by omega)) (Nat.dvd_mul_left _ _)

/-- A quotient of units in steps of its own spacing. -/
def nearestSteps (num den : Nat) : Nat := nearestWhole num (den * spacing (num / den))

theorem nearestSteps_le (num den : Nat) : nearestSteps num den ≤ Nat.pow 2 53 := by
  refine Nat.le_trans (nearestWhole_le _ _) ?_
  rw [← Nat.div_div_eq_div_mul]
  exact div_spacing_lt (num / den)

/-- The number nearest to a quotient of units, if there is one. -/
def ofQuotient? (num den : Nat) : Option Binary64 :=
  let units := nearestSteps num den * spacing (num / den)
  if units < limitUnits then some ⟨units, mul_mod_spacing (nearestSteps_le num den)⟩ else none

/-! ## Arithmetic -/

def ofNat? (n : Nat) : Option Binary64 := ofQuotient? (n * oneUnits) 1

def mul? (x y : Binary64) : Option Binary64 := ofQuotient? (x.units * y.units) oneUnits

def div? (x y : Binary64) : Option Binary64 := ofQuotient? (x.units * oneUnits) y.units

def powerOfTen? (exponent : Nat) : Option Binary64 := ofNat? (Nat.pow 10 exponent)

/-- A number times or by a power of ten. -/
def shift? (x : Binary64) (exponent : Int) : Option Binary64 :=
  (powerOfTen? exponent.natAbs).bind (if 0 ≤ exponent then x.mul? else x.div?)

/-- A number times a power of ten, in steps that are each rounded: one step covers an exponent of at
most 308, that of the largest power of ten within the numbers. -/
def scale? (x : Binary64) (exponent : Int) : Option Binary64 :=
  if exponent.natAbs ≤ 308 then x.shift? exponent
  else if x.units = 0 then some x
  else if 0 ≤ exponent then none
  else (x.shift? (-308)).bind fun y => y.scale? (exponent + 308)
termination_by exponent.natAbs
decreasing_by omega

/-- The number that a significand and a power of ten stand for, if there is one. -/
def scientific? (significand : Nat) (exponent : Int) : Option Binary64 :=
  (ofNat? significand).bind (·.scale? exponent)

end Binary64

end TraceFlow
