/-
TraceFlow.Text.Terminal — text without orders to a terminal.

An order begins with ESC; what follows says of which kind it is and where
it ends. Orders and control characters are dropped, white space apart:

* where the form of an order allows control characters between its parts,
  white space there is shown, and the text behind it as well; the next
  control character takes up the order again (`State.suspended`);
* an order that carries a text of its own swallows all of it.

`shown_eq_self`: a text without control characters stays as it is.
-/

namespace TraceFlow.Terminal

/-- Whether a character is ASCII white space that a control character stands for. -/
def isBlankControl (c : Char) : Bool := c = '\t' || c = '\n' || c = '\x0c' || c = '\r'

/-- Whether a character is shown outside of orders. -/
def isShown (c : Char) : Bool := (32 ≤ c.toNat && c.toNat ≠ 127) || isBlankControl c

def within (low high : Nat) (c : Char) : Bool := low ≤ c.toNat && c.toNat ≤ high

/-! ## Orders -/

/-- An order that has begun, by the part of it that comes next. -/
inductive Order where
  /-- ESC was read. -/
  | escape
  /-- ESC and bytes that announce a final one. -/
  | designation
  /-- ESC `[`: parameters, and a letter at the end. -/
  | control
  /-- ESC `]`: a text up to BEL. -/
  | command
  /-- ESC `P`: a string for a device. -/
  | device
  /-- The parameters of such a string. -/
  | deviceParameter
  /-- What announces the letter behind them. -/
  | deviceDesignation
  /-- A text up to the byte 0x9C. -/
  | string
deriving DecidableEq, Repr

namespace Order

/-- Whether white space between the parts of an order is shown. -/
def showsBlank : Order → Bool
  | .escape | .designation | .control => true
  | _ => false

/-- The order after one more character; none if it ends there. -/
def push (o : Order) (c : Char) : Option Order :=
  match o with
  | .escape =>
    if c = '[' then some .control
    else if c = ']' then some .command
    else if c = 'P' then some .device
    else if c = 'X' || c = '^' || c = '_' then some .string
    else if within 0x30 0x7E c then none
    else if within 0x20 0x2F c then some .designation
    else some .escape
  | .designation => if within 0x30 0x7E c then none else some .designation
  | .control => if within 0x40 0x7E c then none else some .control
  | .command => if c.toNat = 7 then none else some .command
  | .device =>
    if within 0x20 0x2F c then some .deviceDesignation
    else if within 0x30 0x3F c then some .deviceParameter
    else if within 0x40 0x7E c then some .string
    else some .device
  | .deviceParameter =>
    if within 0x20 0x2F c then some .deviceDesignation
    else if within 0x3C 0x7E c then some .string
    else some .deviceParameter
  | .deviceDesignation => if within 0x30 0x7E c then some .string else some .deviceDesignation
  | .string => if (String.utf8EncodeChar c).contains 0x9C then none else some .string

end Order

/-! ## Reading text -/

structure State where
  /-- The order that has begun, if any. -/
  order : Option Order := none
  /-- Whether white space has put the order off. -/
  suspended : Bool := false
deriving DecidableEq, Repr

namespace State

/-- The state behind a control character that begins or ends an order wherever it stands. -/
def ofControl? (c : Char) : Option State :=
  if c.toNat = 27 then some { order := some .escape }
  else if c.toNat = 24 ∨ c.toNat = 26 then some {}
  else none

/-- Whether the character is shown, and the state behind it, where no order is being read. -/
def stepText (s : State) (c : Char) : Bool × State :=
  if isShown c then (true, if c.toNat < 128 then s else {})
  else (false, (ofControl? c).getD { s with suspended := false })

/-- Whether the character is shown, and the state behind it. -/
def step (s : State) (c : Char) : Bool × State :=
  match s.order, s.suspended with
  | some o, false =>
    if o.showsBlank ∧ isBlankControl c then (true, { s with suspended := true })
    else (false, (ofControl? c).getD { order := o.push c })
  | _, _ => s.stepText c

/-- What is shown of a text from a state on. -/
def shown : State → List Char → List Char
  | _, [] => []
  | s, c :: cs =>
    let (isKept, next) := s.step c
    if isKept then c :: next.shown cs else next.shown cs

end State

/-- What a text shows. -/
def shown (text : String) : String := String.ofList (({} : State).shown text.toList)

theorem step_of_isShown {c : Char} (h : isShown c) : ({} : State).step c = (true, {}) := by
  simp [State.step, State.stepText, h]

theorem State.shown_eq_self {cs : List Char} (h : ∀ c ∈ cs, isShown c) :
    ({} : State).shown cs = cs := by
  induction cs with
  | nil => rfl
  | cons c cs ih =>
    simp [State.shown, step_of_isShown (h c (by simp)), ih fun d hd => h d (by simp [hd])]

/-- A text that is shown throughout stays as it is. -/
theorem shown_eq_self {text : String} (h : ∀ c ∈ text.toList, isShown c) : shown text = text := by
  simp [shown, State.shown_eq_self h]

end TraceFlow.Terminal
