/-
TraceFlow.Text.Utf8 — characters out of bytes.

* `pieces` reads bytes one at a time and gives a character for each
  well-formed sequence and `none` for each ill-formed piece. A piece
  ends before the first byte that cannot go on with it (a maximal
  subpart), so one bad byte never swallows what follows.
* `lossy` writes U+FFFD for every ill-formed piece; `decode?` refuses
  bytes that hold one.
-/

namespace TraceFlow.Utf8

/-- A sequence that has begun: how many bytes are still to come, the range that the next one must
lie in, and the bits read so far. -/
structure Begun where
  /-- Bytes still to come; at least one. -/
  more : Nat
  /-- Least value of the next byte. -/
  low : Nat
  /-- Greatest value of the next byte. -/
  high : Nat
  /-- The bits read so far. -/
  bits : Nat
deriving DecidableEq, Repr

inductive Lead where
  /-- It is a character of its own. -/
  | whole
  /-- It begins a longer sequence. -/
  | begins (state : Begun)
  /-- No sequence starts with it. -/
  | bad
deriving DecidableEq, Repr

/-- What the byte `b` says at the start of a sequence. -/
def lead (b : Nat) : Lead :=
  if b < 0x80 then .whole
  else if b < 0xC2 then .bad
  else if b < 0xE0 then .begins ⟨1, 0x80, 0xBF, b - 0xC0⟩
  else if b = 0xE0 then .begins ⟨2, 0xA0, 0xBF, 0⟩
  else if b = 0xED then .begins ⟨2, 0x80, 0x9F, 0xD⟩
  else if b < 0xF0 then .begins ⟨2, 0x80, 0xBF, b - 0xE0⟩
  else if b = 0xF0 then .begins ⟨3, 0x90, 0xBF, 0⟩
  else if b < 0xF4 then .begins ⟨3, 0x80, 0xBF, b - 0xF0⟩
  else if b = 0xF4 then .begins ⟨3, 0x80, 0x8F, 4⟩
  else .bad

/-- The pieces that are complete after a first byte, and the sequence it leaves open. -/
def start (b : UInt8) : List (Option Char) × Option Begun :=
  match lead b.toNat with
  | .whole => ([some (Char.ofNat b.toNat)], none)
  | .begins s => ([], some s)
  | .bad => ([none], none)

/-- The pieces that are complete after one more byte, and the sequence that is open then. -/
def step (open? : Option Begun) (b : UInt8) : List (Option Char) × Option Begun :=
  match open? with
  | none => start b
  | some s =>
    if s.low ≤ b.toNat ∧ b.toNat ≤ s.high then
      let bits := 64 * s.bits + b.toNat % 64
      if s.more ≤ 1 then ([some (Char.ofNat bits)], none)
      else ([], some ⟨s.more - 1, 0x80, 0xBF, bits⟩)
    else
      let (done, next) := start b
      (none :: done, next)

/-- The pieces of `bytes`, going on with a sequence that is open; one that is still open at the end
is ill-formed. -/
def piecesFrom (open? : Option Begun) : List UInt8 → List (Option Char)
  | [] => if open?.isSome then [none] else []
  | b :: bs =>
    let (done, next) := step open? b
    done ++ piecesFrom next bs

/-- The characters and ill-formed pieces of `bytes`, in order. -/
def pieces (bytes : List UInt8) : List (Option Char) := piecesFrom none bytes

/-- The characters of `bytes`, with U+FFFD for each ill-formed piece. -/
def lossy (bytes : List UInt8) : List Char := (pieces bytes).map (·.getD (Char.ofNat 0xFFFD))

/-- The characters of `bytes`, if they are well-formed throughout. -/
def decode? (bytes : List UInt8) : Option (List Char) := (pieces bytes).mapM id

def encode (text : String) : List UInt8 := text.toUTF8.toList

theorem piecesFrom_none_ascii {b : UInt8} (h : b.toNat < 0x80) (bs : List UInt8) :
    piecesFrom none (b :: bs) = some (Char.ofNat b.toNat) :: piecesFrom none bs := by
  simp [piecesFrom, step, start, lead, h]

end TraceFlow.Utf8
