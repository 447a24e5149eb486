/-
TraceFlow.Json.Value — JSON documents and their two written forms.

* Numbers are natural; that is all the documents here hold.
* `render` writes a document with the white space of some `Spacing`:
  `compact` without any, `pretty` with every item and member on a line of
  its own, set in by two spaces for each level.
* Members keep the order in which they are given.
-/
import TraceFlow.Text.Hex

namespace TraceFlow

inductive Json where
  | null
  | bool (b : Bool)
  | number (n : Nat)
  | string (s : String)
  | array (items : List Json)
  /-- Named values, in order. -/
  | object (members : List (String × Json))

namespace Json

/-! ## Building -/

def ofOption {α : Type} (f : α → Json) : Option α → Json
  | some a => f a
  | none => .null

def ofList {α : Type} (f : α → Json) (xs : List α) : Json := .array (xs.map f)

/-- The document of bytes: their values. -/
def ofBytes (bytes : List UInt8) : Json := ofList (fun b => .number b.toNat) bytes

/-! ## Texts -/

/-- How one character is written between quotes: quote and backslash behind a backslash, control
characters by a letter or by their code point in hex, all else as it is. -/
def escapeChar (c : Char) : List Char :=
  match c with
  | '"' => ['\\', '"']
  | '\\' => ['\\', '\\']
  | '\x08' => ['\\', 'b']
  | '\x0C' => ['\\', 'f']
  | '\n' => ['\\', 'n']
  | '\r' => ['\\', 'r']
  | '\t' => ['\\', 't']
  | c =>
    if c.toNat < 0x20 then '\\' :: 'u' :: Hex.fill 4 (Hex.lowerDigits c.toNat) else [c]

def quote (s : String) : List Char := '"' :: (s.toList.flatMap escapeChar ++ ['"'])

/-! ## Spacing -/

/-- The white space of a written form. -/
structure Spacing where
  /-- What stands before an item, a member or a closing bracket at a level. -/
  lineBreak : Nat → List Char
  /-- What stands behind the colon of a member. -/
  gap : List Char
  blank_lineBreak : ∀ level, ∀ c ∈ lineBreak level, c = '\n' ∨ c = ' '
  blank_gap : ∀ c ∈ gap, c = '\n' ∨ c = ' '

namespace Spacing

/-- No space at all. -/
def tight : Spacing where
  lineBreak _ := []
  gap := []
  blank_lineBreak _ _ hc := absurd hc List.not_mem_nil
  blank_gap _ hc := absurd hc List.not_mem_nil

/-- A line for every item and member, set in by two spaces for each level. -/
def lines : Spacing where
  lineBreak level := '\n' :: List.replicate (2 * level) ' '
  gap := [' ']
  blank_lineBreak _ _ hc := (List.mem_cons.1 hc).imp_right List.eq_of_mem_replicate
  blank_gap _ hc := .inr (List.mem_singleton.1 hc)

/-- What stands before a part of a value at a level: a comma, unless it is the first part. -/
def before (w : Spacing) (level : Nat) (first : Bool) : List Char :=
  if first then w.lineBreak (level + 1) else ',' :: w.lineBreak (level + 1)

/-- What stands between the last part of a value and the closing bracket. -/
def behind (w : Spacing) (level : Nat) (first : Bool) : List Char :=
  if first then [] else w.lineBreak level

end Spacing

/-! ## Writing -/

mutual

/-- The characters of a document at a level. -/
def render (w : Spacing) (level : Nat) : Json → List Char
  | .null => "null".toList
  | .bool true => "true".toList
  | .bool false => "false".toList
  | .number n => Nat.toDigits 10 n
  | .string s => quote s
  | .array items => '[' :: renderItems w level true items
  | .object members => '\x7b' :: renderMembers w level true members

/-- The items of a sequence, and its end. -/
def renderItems (w : Spacing) (level : Nat) (first : Bool) : List Json → List Char
  | [] => w.behind level first ++ [']']
  | item :: items =>
    w.before level first ++ (render w (level + 1) item ++ renderItems w level false items)

/-- The members of an object, and its end. -/
def renderMembers (w : Spacing) (level : Nat) (first : Bool) : List (String × Json) → List Char
  | [] => w.behind level first ++ ['\x7d']
  | (key, value) :: members =>
    w.before level first ++ (quote key ++ ':' :: (w.gap ++
      (render w (level + 1) value ++ renderMembers w level false members)))

end

def compact (j : Json) : String := String.ofList (j.render .tight 0)

def pretty (j : Json) : String := String.ofList (j.render .lines 0)

end Json

end TraceFlow
