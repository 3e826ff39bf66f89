/-!
# Ranges of code points

A property of characters is kept as the list of the closed ranges of code points that have it,
ascending and apart. The tables of this library are those of version 14.0 of the character
database.
-/

namespace ClassAtlas.Text

/-- Closed ranges of code points, ascending and apart. -/
abbrev Ranges := List (Nat × Nat)

/-- Whether a code point lies in one of the ranges. -/
def Ranges.holds (ranges : Ranges) (code : Nat) : Bool :=
  ranges.any fun r => decide (r.1 ≤ code) && decide (code ≤ r.2)

end ClassAtlas.Text
