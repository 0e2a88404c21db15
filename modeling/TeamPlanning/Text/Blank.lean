/-! # Blanks

The characters with the Unicode property `White_Space`, which has not changed since version 6.3. -/

set_option autoImplicit false

namespace TeamPlanning.Text

/-- Closed ranges of code points, ascending and apart. -/
def blankRanges : List (Nat × Nat) :=
  [(0x09, 0x0D), (0x20, 0x20), (0x85, 0x85), (0xA0, 0xA0), (0x1680, 0x1680), (0x2000, 0x200A),
    (0x2028, 0x2029), (0x202F, 0x202F), (0x205F, 0x205F), (0x3000, 0x3000)]

/-- Whether a character is a blank. -/
def isBlank (c : Char) : Bool :=
  blankRanges.any fun (first, last) => first ≤ c.toNat && c.toNat ≤ last

def trim (text : List Char) : List Char :=
  ((text.dropWhile isBlank).reverse.dropWhile isBlank).reverse

example : ((blankRanges.map fun (first, last) => last + 1 - first).sum) = 25 := by decide
example : isBlank 'a' = false ∧ isBlank '\u200b' = false := by decide

end TeamPlanning.Text
