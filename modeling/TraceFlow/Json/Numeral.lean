/-
TraceFlow.Json.Numeral — numbers as documents write them.

A numeral is a whole number that fits a 64-bit word, signed when it is
negative, or else a binary64 number. `describe` names it in messages; a
binary64 number is shown by the fewest digits that read back, positional
while its point lies within sixteen places and with an exponent beyond.
-/
import TraceFlow.Binary64.Shortest

namespace TraceFlow.Json

/-- A number as a document writes it. -/
inductive Numeral where
  /-- A whole number of at most 64 bits. -/
  | whole (n : Nat)
  /-- A negative whole number of at most 64 bits, without its sign. -/
  | negative (n : Nat)
  /-- Any other number: its sign, and the binary64 number behind it. -/
  | binary (minus : Bool) (size : Binary64)
deriving DecidableEq, Repr

namespace Numeral

/-- An exponent in writing: its sign, whichever it is, and its digits. -/
def exponentText (power : Int) : List Char :=
  (if power < 0 then '-' else '+') :: Nat.toDigits 10 power.natAbs

def layout (d : Binary64.Decimal) : List Char :=
  let ds := Nat.toDigits 10 d.digits
  let zeros (n : Nat) := List.replicate n '0'
  let point := (ds.length : Int) + d.exponent
  if 0 ≤ d.exponent ∧ point ≤ 16 then ds ++ zeros d.exponent.toNat ++ ['.', '0']
  else if 0 < point ∧ point ≤ 16 then ds.take point.toNat ++ '.' :: ds.drop point.toNat
  else if -5 < point ∧ point ≤ 0 then '0' :: '.' :: (zeros point.natAbs ++ ds)
  else
    let fraction := if ds.length ≤ 1 then [] else '.' :: ds.drop 1
    ds.take 1 ++ fraction ++ 'e' :: exponentText (point - 1)

def binaryText (minus : Bool) (size : Binary64) : String :=
  let sign := if minus then "-" else ""
  if size.units = 0 then sign ++ "0.0" else sign ++ String.ofList (layout size.shortest)

def describe : Numeral → String
  | .whole n => "integer `" ++ Nat.repr n ++ "`"
  | .negative n => "integer `-" ++ Nat.repr n ++ "`"
  | .binary minus size => "floating point `" ++ binaryText minus size ++ "`"

end Numeral

end TraceFlow.Json
