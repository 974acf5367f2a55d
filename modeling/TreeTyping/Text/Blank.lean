/-
Blank characters.

A character is blank when the Unicode standard gives it the property of white space, or when it is
one of the four information separators U+001C to U+001F.  Type strings may hold blanks before any
token, and blanks at the end of a type string are dropped before it is read.
-/
namespace TreeTyping.Text

/-- The blank code points as closed intervals, in increasing order. -/
def blankRanges : List (Nat × Nat) := [
  (0x9, 0xd), (0x1c, 0x20), (0x85, 0x85), (0xa0, 0xa0), (0x1680, 0x1680),
  (0x2000, 0x200a), (0x2028, 0x2029), (0x202f, 0x202f), (0x205f, 0x205f), (0x3000, 0x3000)]

def isBlank (c : Char) : Bool :=
  blankRanges.any fun r => r.1 ≤ c.toNat && c.toNat ≤ r.2

/-- A text without the blanks at its end. -/
def dropTrailingBlanks (cs : List Char) : List Char :=
  (cs.reverse.dropWhile isBlank).reverse

end TreeTyping.Text
