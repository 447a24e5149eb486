/-
TraceFlow.Text.Blank — white space.

`isBlank` is the White_Space property of the Unicode character database:
25 code points, of which core's `Char.isWhitespace` knows four.
-/

namespace TraceFlow.Text

/-- The code points with the White_Space property, in ascending order. -/
def blankCodePoints : List Nat :=
  [0x09, 0x0A, 0x0B, 0x0C, 0x0D, 0x20, 0x85, 0xA0, 0x1680,
   0x2000, 0x2001, 0x2002, 0x2003, 0x2004, 0x2005, 0x2006, 0x2007, 0x2008, 0x2009, 0x200A,
   0x2028, 0x2029, 0x202F, 0x205F, 0x3000]

def isBlank (c : Char) : Bool := blankCodePoints.contains c.toNat

/-- The text without white space at its start. -/
def dropBlanks (cs : List Char) : List Char := cs.dropWhile isBlank

def trimEnd (cs : List Char) : List Char := (cs.reverse.dropWhile isBlank).reverse

def trim (cs : List Char) : List Char := trimEnd (dropBlanks cs)

example : blankCodePoints.length = 25 := rfl

end TraceFlow.Text
