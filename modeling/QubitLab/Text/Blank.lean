/-!
# Blank characters

The white space of the Unicode standard (the property `White_Space`), and the
trimming of texts by it. Case folding, in contrast, is limited to the letters of
ASCII, because the names it is used on are written in ASCII.

## Main definitions

* `Text.blankRanges`: The ranges of white space, in order.
* `Text.isBlank`: Whether a character is white space.
* `Text.trim`: A text without white space at its ends.
* `Text.lowerAscii`: A text with the ASCII capitals made small.
-/

namespace QubitLab

namespace Text

/-- The ranges of code points with the property `White_Space`, in order. -/
def blankRanges : List (Nat × Nat) :=
  [(0x09, 0x0D), (0x20, 0x20), (0x85, 0x85), (0xA0, 0xA0), (0x1680, 0x1680),
    (0x2000, 0x200A), (0x2028, 0x2029), (0x202F, 0x202F), (0x205F, 0x205F),
    (0x3000, 0x3000)]

/-- True of the characters that are white space. -/
def isBlank (c : Char) : Bool :=
  blankRanges.any fun r => r.1 ≤ c.toNat && c.toNat ≤ r.2

/-- The characters that are left when white space is cut off at both ends. -/
def trimChars (cs : List Char) : List Char :=
  ((cs.dropWhile isBlank).reverse.dropWhile isBlank).reverse

/-- The text without white space at its ends. -/
def trim (s : String) : String := String.ofList (trimChars s.toList)

/-- True of the texts that hold nothing but white space. -/
def isAllBlank (s : String) : Bool := s.toList.all isBlank

/-- The text with the letters `A` to `Z` made small, and all else kept. -/
def lowerAscii (s : String) : String := s.map Char.toLower

end Text

end QubitLab
