import ClassAtlas.Layout.Abscissa
import ClassAtlas.Layout.Crossing
import ClassAtlas.Layout.Placement

/-!
# The layered layout

The boxes of a component stand in layers such that links lead downwards, the layers are ordered for
few crossings, and boxes that are linked stand above each other where possible. Bends are given the
middle size of the boxes.
-/

namespace ClassAtlas

/-- The middle one of some numbers, the larger one of two. -/
def upperMedian (xs : List Float) : Float :=
  (xs.mergeSort fun a b => a ≤ b).getD (xs.length / 2) 0.0

/-- The vertical places of layers of given heights, from the top. -/
def ordinates (gap : Float) : Float → List Float → List Float
  | _, [] => []
  | top, half :: halves => (top + half) :: ordinates gap (top + (2.0 * half + gap)) halves

/-- The graph of a chart, its boxes numbered in their order. -/
def Chart.digraph (chart : Chart Float) : Digraph :=
  let ids := chart.boxes.map (·.1)
  { size := ids.length
    edges := chart.links.map fun (a, b) => (ids.idxOf a, ids.idxOf b) }

/-- The centers of the boxes of a component, in their order. -/
def layeredCenters (settings : LayoutSettings Float) (chart : Chart Float) : List (Point Float) :=
  let widths := (chart.boxes.map (·.2.width))
  let heights := (chart.boxes.map (·.2.height))
  let grid := (Grid.ofDigraph chart.digraph).uncross
  let xs := grid.abscissas settings.boxGap (widths.toArray.getD · (upperMedian widths))
  let height := (heights.toArray.getD · (upperMedian heights))
  let halves := grid.layers.map fun layer =>
    match layer.map (height · / 2.0) with
    | [] => 0.0
    | h :: hs => greatest h hs
  let ys := ordinates settings.layerGap 0.0 halves
  (List.range chart.boxes.length).map fun v =>
    ⟨xs.getD v 0.0, ys.getD (grid.layers.findIdx (v ∈ ·)) 0.0⟩

/-- The layered drawing of a component. There is always one. -/
def layeredDrawing : Drawing Float := fun settings chart =>
  .ok ((chart.boxes.map (·.1)).zip (layeredCenters settings chart))

/-- Components are sets of boxes that are joined by links, and each is drawn in layers. -/
def layeredEngine : Engine Float := ⟨Chart.components, layeredDrawing⟩

end ClassAtlas
