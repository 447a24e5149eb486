/-
TraceFlow.Mnemonic.Page — the two opcode pages of the Game Boy's CPU.

An opcode byte splits into the fields x (two bits), y (three) and z
(three); y splits further into p (two) and q (one). `baseForm?` and
`bitForm` read the forms off these fields.
-/
import TraceFlow.Mnemonic.Form

namespace TraceFlow.Mnemonic

/-! ## Names that the fields select -/

/-- The operand that three bits select. -/
def register (i : Nat) : String :=
  ["%b", "%c", "%d", "%e", "%h", "%l", "(%hl)", "%a"].getD i ""

def pair (i : Nat) : String := ["%bc", "%de", "%hl", "%sp"].getD i ""

def stackPair (i : Nat) : String := ["%bc", "%de", "%hl", "%af"].getD i ""

def pointer (i : Nat) : String := ["(%bc)", "(%de)", "(%hl+)", "(%hl-)"].getD i ""

def condition (i : Nat) : String := ["nzf", "zf", "ncy", "cy"].getD i ""

def arithmetic (i : Nat) : String :=
  ["add", "adc", "sub", "sbc", "and", "xor", "or", "cp"].getD i ""

def rotation (i : Nat) : String :=
  ["rlc", "rrc", "rl", "rr", "sla", "sra", "swap", "srl"].getD i ""

def accumulator (i : Nat) : String :=
  ["rlca", "rrca", "rla", "rra", "daa", "cpl", "scf", "ccf"].getD i ""

/-! ## The base page -/

/-- The forms with x = 0: loads, increments and relative jumps. -/
def quarter0 (y z : Nat) : Option Form :=
  let p := y / 2
  let odd := y % 2 = 1
  match z with
  | 0 =>
    match y with
    | 0 => some ⟨"nop", .empty, ""⟩
    | 1 => some ⟨"ld ($0x", .word, "), %sp"⟩
    | 2 => some ⟨"stop", .empty, ""⟩
    | 3 => some ⟨"jr $0x", .signedByte, ""⟩
    | y => some ⟨"jr " ++ condition (y - 4) ++ ", $0x", .signedByte, ""⟩
  | 1 =>
    if odd then some ⟨"add %hl, " ++ pair p, .empty, ""⟩
    else some ⟨"ld " ++ pair p ++ ", $0x", .word, ""⟩
  | 2 =>
    if odd then some ⟨"ld %a, " ++ pointer p, .empty, ""⟩
    else some ⟨"ld " ++ pointer p ++ ", %a", .empty, ""⟩
  | 3 =>
    if odd then some ⟨"dec " ++ pair p, .empty, ""⟩ else some ⟨"inc " ++ pair p, .empty, ""⟩
  | 4 => some ⟨"inc " ++ register y, .empty, ""⟩
  | 5 => some ⟨"dec " ++ register y, .empty, ""⟩
  | 6 => some ⟨"ld " ++ register y ++ ", $0x", .byte, ""⟩
  | _ => some ⟨accumulator y, .empty, ""⟩

/-- The forms with x = 3: stack, jumps, calls, returns and restarts. -/
def quarter3 (y z : Nat) : Option Form :=
  let p := y / 2
  let odd := y % 2 = 1
  match z with
  | 0 =>
    match y with
    | 4 => some ⟨"ldh ($0x", .highPage, "), %a"⟩
    | 5 => some ⟨"add %sp, $0x", .signedByte, ""⟩
    | 6 => some ⟨"ldh %a, ($0x", .highPage, ")"⟩
    | 7 => some ⟨"ld %hl, %sp + $0x", .signedByte, ""⟩
    | y => some ⟨"ret " ++ condition y, .empty, ""⟩
  | 1 =>
    match y with
    | 1 => some ⟨"ret", .empty, ""⟩
    | 3 => some ⟨"reti", .empty, ""⟩
    | 5 => some ⟨"jmp (%hl)", .empty, ""⟩
    | 7 => some ⟨"ld %sp, %hl", .empty, ""⟩
    | _ => some ⟨"pop " ++ stackPair p, .empty, ""⟩
  | 2 =>
    match y with
    | 4 => some ⟨"ld ($0xFF00 + %c), %a", .empty, ""⟩
    | 5 => some ⟨"ld ($0x", .word, "), %a"⟩
    | 6 => some ⟨"ld %a, ($0xFF00 + %c)", .empty, ""⟩
    | 7 => some ⟨"ld %a, ($0x", .word, ")"⟩
    | y => some ⟨"jmp " ++ condition y ++ ", $0x", .word, ""⟩
  | 3 =>
    match y with
    | 0 => some ⟨"jmp $0x", .word, ""⟩
    | 6 => some ⟨"di", .empty, ""⟩
    | 7 => some ⟨"ei", .empty, ""⟩
    | _ => none
  | 4 => if y < 4 then some ⟨"call " ++ condition y ++ ", $0x", .word, ""⟩ else none
  | 5 =>
    if odd then
      if y = 1 then some ⟨"call $0x", .word, ""⟩ else none
    else some ⟨"push " ++ stackPair p, .empty, ""⟩
  | 6 => some ⟨arithmetic y ++ " %a, $0x", .byte, ""⟩
  | _ => some ⟨"rst " ++ Hex.padded 2 (8 * y) ++ "h", .empty, ""⟩

/-- The form of an opcode byte; `none` for those the CPU does not know and for the byte that turns
to the other page. -/
def baseForm? (op : UInt8) : Option Form :=
  let y := op.toNat / 8 % 8
  let z := op.toNat % 8
  match op.toNat / 64 with
  | 0 => quarter0 y z
  | 1 =>
    if op = 0x76 then some ⟨"halt", .empty, ""⟩
    else some ⟨"ld " ++ register y ++ ", " ++ register z, .empty, ""⟩
  | 2 => some ⟨arithmetic y ++ " %a, " ++ register z, .empty, ""⟩
  | _ => quarter3 y z

/-! ## The page of rotations and single bits -/

/-- The byte that turns to the page of rotations and single bits. -/
def pageByte : UInt8 := 0xCB

def bitOperation (sub : UInt8) : String :=
  let y := sub.toNat / 8 % 8
  let operand := register (sub.toNat % 8)
  match sub.toNat / 64 with
  | 0 => rotation y ++ " " ++ operand
  | 1 => "bit " ++ Nat.repr y ++ ", " ++ operand
  | 2 => "res " ++ Nat.repr y ++ ", " ++ operand
  | _ => "set " ++ Nat.repr y ++ ", " ++ operand

/-- The form of a byte on the page of rotations and single bits: the byte, then its operation. -/
def bitForm (sub : UInt8) : Form :=
  ⟨"cb $0x" ++ Hex.padded 2 sub.toNat ++ " ; " ++ bitOperation sub, .empty, ""⟩

end TraceFlow.Mnemonic
