/-!
# White space

Sets of characters are given as lists of ranges of code points. White space is what the Unicode
property `White_Space` says.
-/

namespace DrawnModels

namespace Text

abbrev Ranges := List (Nat × Nat)

/-- Whether a number lies in one of the ranges, both ends included. -/
def Ranges.includes (r : Ranges) (n : Nat) : Bool :=
  r.any fun e => e.1 ≤ n && n ≤ e.2

def Ranges.contains (r : Ranges) (c : Char) : Bool :=
  r.includes c.toNat

/-- The characters with the property `White_Space`. -/
def blankRanges : Ranges :=
  [(0x0009, 0x000D), (0x0020, 0x0020), (0x0085, 0x0085), (0x00A0, 0x00A0), (0x1680, 0x1680),
   (0x2000, 0x200A), (0x2028, 0x2029), (0x202F, 0x202F), (0x205F, 0x205F), (0x3000, 0x3000)]

def isBlank (c : Char) : Bool :=
  blankRanges.contains c

end Text

end DrawnModels
