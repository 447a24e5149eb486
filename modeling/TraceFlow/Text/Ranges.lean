/-
TraceFlow.Text.Ranges — tables of ranges of numbers.

A table lists ranges, each by its first and last number. In a table in
ascending order (`Ascends`) a number is found by halving: `covers` looks
at few of the ranges and still finds what a search through all of them
would (`covers_iff`).
-/

namespace TraceFlow.Text

/-- Ranges of numbers, each by its first and last. -/
abbrev Ranges := Array (Nat × Nat)

namespace Ranges

def Holds (n : Nat) (range : Nat × Nat) : Prop := range.1 ≤ n ∧ n ≤ range.2

/-- Whether ranges have their ends in order and each begins at `least` or above and below the one
behind it. -/
def ascendsFrom (least : Nat) : List (Nat × Nat) → Bool
  | [] => true
  | range :: ranges =>
    least ≤ range.1 && range.1 ≤ range.2 && ascendsFrom (range.2 + 1) ranges

/-- The ranges are in ascending order and apart. -/
def Ascends (table : Ranges) : Prop := ascendsFrom 0 table.toList

instance (table : Ranges) : Decidable table.Ascends :=
  inferInstanceAs (Decidable (ascendsFrom 0 table.toList = true))

/-- Whether one of the ranges from place `low` on, but before place `high`, holds `n`. -/
def coversFrom (table : Ranges) (n low high : Nat) : Bool :=
  if low < high then
    let mid := (low + high) / 2
    match table[mid]? with
    | none => false
    | some range =>
      if n < range.1 then table.coversFrom n low mid
      else if range.2 < n then table.coversFrom n (mid + 1) high
      else true
  else false
termination_by high - low

def covers (table : Ranges) (n : Nat) : Bool := table.coversFrom n 0 table.size

theorem le_of_ascendsFrom {least : Nat} {ranges : List (Nat × Nat)} (h : ascendsFrom least ranges)
    {i : Nat} (hi : i < ranges.length) : least ≤ ranges[i].1 ∧ ranges[i].1 ≤ ranges[i].2 := by
  induction ranges generalizing least i with
  | nil => exact absurd hi (Nat.not_lt_zero _)
  | cons range ranges ih =>
    simp only [ascendsFrom, Bool.and_eq_true, decide_eq_true_eq] at h
    cases i with
    | zero => exact h.1
    | succ i =>
      have := ih h.2 (Nat.lt_of_succ_lt_succ hi)
      simp only [List.getElem_cons_succ]
      omega

theorem lt_of_ascendsFrom {least : Nat} {ranges : List (Nat × Nat)} (h : ascendsFrom least ranges)
    {i j : Nat} (hij : i < j) (hj : j < ranges.length) : ranges[i].2 < ranges[j].1 := by
  induction ranges generalizing least i j with
  | nil => exact absurd hj (Nat.not_lt_zero _)
  | cons range ranges ih =>
    simp only [ascendsFrom, Bool.and_eq_true, decide_eq_true_eq] at h
    cases j with
    | zero => exact absurd hij (Nat.not_lt_zero _)
    | succ j =>
      have hj' : j < ranges.length := Nat.lt_of_succ_lt_succ hj
      cases i with
      | zero => exact (le_of_ascendsFrom h.2 hj').1
      | succ i => exact ih h.2 (Nat.lt_of_succ_lt_succ hij) hj'

/-- Of two ranges of a table in ascending order, the earlier one lies below the later. -/
theorem Ascends.below {table : Ranges} (h : table.Ascends) {i j : Nat} {a b : Nat × Nat}
    (hij : i < j) (ha : table[i]? = some a) (hb : table[j]? = some b) :
    a.1 ≤ a.2 ∧ a.2 < b.1 ∧ b.1 ≤ b.2 := by
  obtain ⟨hi, rfl⟩ := Array.getElem?_eq_some_iff.1 ha
  obtain ⟨hj, rfl⟩ := Array.getElem?_eq_some_iff.1 hb
  exact ⟨(le_of_ascendsFrom h hi).2, lt_of_ascendsFrom h hij hj, (le_of_ascendsFrom h hj).2⟩

/-- What halving finds among some of the ranges is what is there. -/
theorem coversFrom_iff {table : Ranges} (h : table.Ascends) (n low high : Nat)
    (hhigh : high ≤ table.size) :
    table.coversFrom n low high ↔
      ∃ i r, low ≤ i ∧ i < high ∧ table[i]? = some r ∧ Holds n r := by
  fun_induction coversFrom table n low high with
  | case1 low high hlt mid hnone =>
    have := Array.getElem?_eq_none_iff.1 hnone
    omega
  | case2 low high hlt mid range hmid hn ih =>
    rw [ih (by omega)]
    constructor
    · rintro ⟨i, r, h₁, h₂, h₃⟩
      exact ⟨i, r, h₁, by omega, h₃⟩
    · rintro ⟨i, r, h₁, h₂, hi, hr⟩
      refine ⟨i, r, h₁, ?_, hi, hr⟩
      rcases Nat.lt_trichotomy i mid with hlt | rfl | hgt
      · exact hlt
      · rw [hmid] at hi
        cases hi
        exact absurd hr.1 (by omega)
      · have := (h.below hgt hmid hi).2
        have := (h.below hgt hmid hi).1
        exact absurd hr.1 (by omega)
  | case3 low high hlt mid range hmid hn hlast ih =>
    rw [ih hhigh]
    constructor
    · rintro ⟨i, r, h₁, h₂, h₃⟩
      exact ⟨i, r, by omega, h₂, h₃⟩
    · rintro ⟨i, r, h₁, h₂, hi, hr⟩
      refine ⟨i, r, ?_, h₂, hi, hr⟩
      rcases Nat.lt_trichotomy i mid with hlt | rfl | hgt
      · have hb := (h.below hlt hi hmid).2
        have hl : range.1 ≤ n := Nat.le_of_not_lt hn
        exact absurd hr.2 (by omega)
      · rw [hmid] at hi
        cases hi
        exact absurd hr.2 (by omega)
      · exact hgt
  | case4 low high hlt mid range hmid hn hlast =>
    refine ⟨fun _ => ⟨mid, range, by omega, by omega, hmid, ?_, ?_⟩, fun _ => rfl⟩ <;> omega
  | case5 low high hlt =>
    refine ⟨nofun, ?_⟩
    rintro ⟨i, _, h₁, h₂, _⟩
    omega

/-- A table in ascending order covers a number exactly when one of its ranges holds it. -/
theorem covers_iff {table : Ranges} (h : table.Ascends) (n : Nat) :
    table.covers n ↔ ∃ r ∈ table, Holds n r := by
  rw [covers, coversFrom_iff h n 0 table.size (Nat.le_refl _)]
  constructor
  · rintro ⟨i, r, -, -, hi, hr⟩
    exact ⟨r, Array.mem_of_getElem? hi, hr⟩
  · rintro ⟨r, hmem, hr⟩
    obtain ⟨i, hi⟩ := Array.getElem?_of_mem hmem
    exact ⟨i, r, Nat.zero_le _, (Array.getElem?_eq_some_iff.1 hi).1, hi, hr⟩

end Ranges

end TraceFlow.Text
