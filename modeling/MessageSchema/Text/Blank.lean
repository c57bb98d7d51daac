/-! # White space

The characters with the Unicode property `White_Space`, and the removal of a run of them from
both ends of a text. -/

namespace MessageSchema.Text

/-- The code points of white space as closed ranges in ascending order. -/
def blankRanges : List (Nat × Nat) :=
  [(0x09, 0x0D), (0x20, 0x20), (0x85, 0x85), (0xA0, 0xA0), (0x1680, 0x1680), (0x2000, 0x200A),
    (0x2028, 0x2029), (0x202F, 0x202F), (0x205F, 0x205F), (0x3000, 0x3000)]

/-- Whether `c` is white space. -/
def isBlank (c : Char) : Bool :=
  blankRanges.any fun range => range.1 ≤ c.toNat && c.toNat ≤ range.2

/-- `l` without the white space at its two ends. -/
def trimList (l : List Char) : List Char :=
  ((l.dropWhile isBlank).reverse.dropWhile isBlank).reverse

/-- `s` without the white space at its two ends. -/
def trim (s : String) : String := String.ofList (trimList s.toList)

end MessageSchema.Text
