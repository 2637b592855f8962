/-!
# Blank characters

Between two lexemes a program may hold any run of characters with the Unicode
property `White_Space`.  The property is a closed list of twenty-five
characters, kept here as ranges of code points.
-/

namespace Primer

/-- The code points with the property `White_Space`, as inclusive ranges in
increasing order. -/
def blankRanges : List (Nat × Nat) :=
  [(0x09, 0x0D), (0x20, 0x20), (0x85, 0x85), (0xA0, 0xA0), (0x1680, 0x1680),
    (0x2000, 0x200A), (0x2028, 0x2029), (0x202F, 0x202F), (0x205F, 0x205F),
    (0x3000, 0x3000)]

/-- Whether a character separates lexemes without being part of one. -/
def isBlank (c : Char) : Bool :=
  blankRanges.any fun (first, last) => first ≤ c.toNat && c.toNat ≤ last

end Primer
