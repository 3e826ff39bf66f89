import ClassAtlas.Geometry.Basic

/-!
# Settings of the layered layout
-/

namespace ClassAtlas

/-- The distances that the layered layout keeps, and the size of a box that has none. -/
structure LayoutSettings (K : Type) where
  boxSize : Size K
  /-- The distance between neighbouring boxes and between components. -/
  boxGap : K
  /-- The distance between layers. -/
  layerGap : K
  /-- The free space above and to the left of the diagram. -/
  padding : K

end ClassAtlas
