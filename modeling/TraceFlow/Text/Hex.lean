/-
TraceFlow.Text.Hex — hexadecimal text of numbers and bytes.

* Writing: `upper` and `lower` give a number in the fewest digits,
  `padded` fills up with zeros on the left, `ofBytes` gives two
  lower-case digits for each byte.
* Reading: `value?` reads one digit of either case, `number` a run of
  digits, `numberBelow?` a run that has to stay below a bound, `bytes?`
  pairs of digits.
* `number_upper` and `number_fill` say that reading undoes writing.
-/

namespace TraceFlow.Hex

/-! ## Writing -/

/-- The lower-case digits of `n`, without leading zeros. -/
def lowerDigits (n : Nat) : List Char := Nat.toDigits 16 n

def upperDigits (n : Nat) : List Char := (Nat.toDigits 16 n).map Char.toUpper

def lower (n : Nat) : String := String.ofList (lowerDigits n)

def upper (n : Nat) : String := String.ofList (upperDigits n)

/-- Digits filled up with zeros on the left until there are `width` of them. -/
def fill (width : Nat) (digits : List Char) : List Char :=
  List.replicate (width - digits.length) '0' ++ digits

/-- `n` in at least `width` upper-case digits. -/
def padded (width n : Nat) : String := String.ofList (fill width (upperDigits n))

/-- The two lower-case digits of a byte, high half first. -/
def pair (b : UInt8) : List Char :=
  [Nat.digitChar (b.toNat / 16), Nat.digitChar (b.toNat % 16)]

/-- Two lower-case digits for each byte. -/
def ofBytes (bytes : List UInt8) : String := String.ofList (bytes.flatMap pair)

/-! ## Reading -/

/-- The value of a hex digit of either case. -/
def value? (c : Char) : Option Nat :=
  if '0' ≤ c ∧ c ≤ '9' then some (c.toNat - '0'.toNat)
  else if 'a' ≤ c ∧ c ≤ 'f' then some (c.toNat - 'a'.toNat + 10)
  else if 'A' ≤ c ∧ c ≤ 'F' then some (c.toNat - 'A'.toNat + 10)
  else none

def isDigit (c : Char) : Bool := (value? c).isSome

/-- The number that a run of digits spells, going on from `acc`; other characters count as zero. -/
def numberFrom (acc : Nat) : List Char → Nat
  | [] => acc
  | c :: cs => numberFrom (16 * acc + (value? c).getD 0) cs

/-- The number that a run of digits spells. -/
def number (digits : List Char) : Nat := numberFrom 0 digits

/-- The number that a run of digits spells, going on from `acc`, if it stays below `bound`. -/
def numberFromBelow? (bound acc : Nat) : List Char → Option Nat
  | [] => if acc < bound then some acc else none
  | c :: cs =>
    if acc < bound then numberFromBelow? bound (16 * acc + (value? c).getD 0) cs else none

/-- The number that a run of digits spells, if it is below `bound`; reading ends at the first digit
that it exceeds the bound with. -/
def numberBelow? (bound : Nat) (digits : List Char) : Option Nat := numberFromBelow? bound 0 digits

/-- The bytes that pairs of digits spell; `none` for an odd digit at the end or a character that is
no digit. -/
def bytes? : List Char → Option (List UInt8)
  | [] => some []
  | [_] => none
  | h :: l :: cs => do
    let high ← value? h
    let low ← value? l
    let rest ← bytes? cs
    return UInt8.ofNat (16 * high + low) :: rest

/-! ## Numbers below a bound -/

theorem le_numberFrom (acc : Nat) (cs : List Char) : acc ≤ numberFrom acc cs := by
  induction cs generalizing acc with
  | nil => exact Nat.le_refl _
  | cons c cs ih => exact Nat.le_trans (by omega) (ih (16 * acc + (value? c).getD 0))

theorem numberFromBelow?_eq (bound acc : Nat) (cs : List Char) :
    numberFromBelow? bound acc cs =
      if numberFrom acc cs < bound then some (numberFrom acc cs) else none := by
  induction cs generalizing acc with
  | nil => rfl
  | cons c cs ih =>
    rw [numberFromBelow?, ih, numberFrom]
    split
    · rfl
    · have := le_numberFrom (16 * acc + (value? c).getD 0) cs
      rw [if_neg (by omega)]

/-- Ending early gives what the whole number gives. -/
theorem numberBelow?_eq (bound : Nat) (digits : List Char) :
    numberBelow? bound digits = if number digits < bound then some (number digits) else none :=
  numberFromBelow?_eq bound 0 digits

/-! ## Reading undoes writing -/

theorem value?_toUpper_digitChar {n : Nat} (h : n < 16) :
    value? (Nat.digitChar n).toUpper = some n := by
  have : ∀ n : Fin 16, value? (Nat.digitChar n).toUpper = some n.val := by decide
  exact this ⟨n, h⟩

theorem numberFrom_append (acc : Nat) (xs ys : List Char) :
    numberFrom acc (xs ++ ys) = numberFrom (numberFrom acc xs) ys := by
  induction xs generalizing acc with
  | nil => rfl
  | cons x xs ih => simp [numberFrom, ih]

theorem number_toDigits (f : Char → Char)
    (hf : ∀ n, n < 16 → value? (f (Nat.digitChar n)) = some n) (n : Nat) :
    number ((Nat.toDigits 16 n).map f) = n := by
  induction n using Nat.strongRecOn with
  | ind n ih =>
    rw [Nat.toDigits_eq_if (by decide)]
    split
    · rename_i h
      simp [number, numberFrom, hf n h]
    · rename_i h
      have hlt : n / 16 < n := by omega
      have := ih _ hlt
      unfold number at this ⊢
      rw [List.map_append, numberFrom_append, this]
      simp [numberFrom, hf (n % 16) (by omega)]
      omega

/-- Reading the upper-case digits of a number gives the number. -/
theorem number_upper (n : Nat) : number (upperDigits n) = n :=
  number_toDigits Char.toUpper (fun _ h => value?_toUpper_digitChar h) n

/-- Zeros on the left do not change what is read. -/
theorem number_fill (width : Nat) (digits : List Char) :
    number (fill width digits) = number digits := by
  have : ∀ k, numberFrom 0 (List.replicate k '0') = 0 := by
    intro k
    induction k with
    | zero => rfl
    | succ k ih => simpa [List.replicate_succ, numberFrom, value?] using ih
  unfold number fill
  rw [numberFrom_append, this]

end TraceFlow.Hex
