/-!
# Points, sizes and boxes

The plane in which diagrams are drawn: x grows to the right and y grows downwards. The coordinates
may be of any kind that has the operations used, so the same definitions run on floating-point
numbers and can be reasoned about over the rationals.
-/

namespace ClassAtlas

/-- A place in the plane. -/
structure Point (K : Type) where
  x : K
  y : K
deriving Repr, DecidableEq

/-- The extent of a box. -/
structure Size (K : Type) where
  width : K
  height : K
deriving Repr, DecidableEq

/-- A box given by its center and half of its extent. -/
structure Box (K : Type) where
  center : Point K
  halfWidth : K
  halfHeight : K
deriving Repr, DecidableEq

variable {K : Type}

/-- The top left corner of a box with a given center. -/
def Size.cornerAt [Sub K] [Div K] [OfNat K 2] (size : Size K) (center : Point K) : Point K :=
  ⟨center.x - size.width / 2, center.y - size.height / 2⟩

/-- The box of a given size with a given top left corner. -/
def Size.boxAt [Add K] [Div K] [OfNat K 2] (size : Size K) (corner : Point K) : Box K :=
  { center := ⟨corner.x + size.width / 2, corner.y + size.height / 2⟩
    halfWidth := size.width / 2
    halfHeight := size.height / 2 }

end ClassAtlas
