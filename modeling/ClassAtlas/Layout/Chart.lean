import ClassAtlas.Diagram.Query
import ClassAtlas.Layout.Settings

/-!
# Charts

What a layout is computed from: the boxes of a diagram with their sizes, and the links between them.
A chart has every id and every link once. Links point downwards in the drawing, so arrows that are
drawn upwards are turned around. Arrows to anything but a box, and from a box to itself, make no
link.

A chart falls into components, the sets of boxes that are joined by links; each is drawn on its own.
-/

namespace ClassAtlas

/-- The boxes and links that a layout is computed from. -/
structure Chart (K : Type) where
  boxes : List (String × Size K)
  links : List (String × String)

namespace Chart

variable {K : Type}

/-- The link of an arrow between two of the boxes. -/
def link? (ids : List String) (arrow : Arrow K) : Option (String × String) :=
  if arrow.source ∈ ids ∧ arrow.target ∈ ids ∧ arrow.source ≠ arrow.target then
    some (if arrow.kind.pointsUp then (arrow.target, arrow.source)
      else (arrow.source, arrow.target))
  else none

/-- The size of a box. Where several boxes bear the id, the last one counts. -/
def sizeOf (settings : LayoutSettings K) (d : Diagram K) (id : String) : Size K :=
  ((d.nodes.reverse.find? fun n => n.id == id).bind (·.size)).getD settings.boxSize

/-- The chart of a diagram. -/
def ofDiagram (settings : LayoutSettings K) (d : Diagram K) : Chart K :=
  let ids := (d.nodes.map (·.id)).eraseDups
  { boxes := ids.map fun id => (id, sizeOf settings d id)
    links := (d.arrows.filterMap (link? ids)).eraseDups }

/-! ## Components -/

section

variable {α : Type} [DecidableEq α]

/-- Joins the components of the two ends of a link: that of the second end is added to that of the
first and loses its own place. -/
def join (components : List (List α)) (link : α × α) : List (List α) :=
  match components.find? (link.2 ∈ ·) with
  | some found =>
    if link.1 ∈ found then components
    else (components.filter (link.2 ∉ ·)).map fun c => if link.1 ∈ c then c ++ found else c
  | none => components

/-- The components of a graph. -/
def componentsOf (vertices : List α) (links : List (α × α)) : List (List α) :=
  links.foldl join (vertices.map ([·]))

end

/-- The components of a chart, each a chart of its own. -/
def components (chart : Chart K) : List (Chart K) :=
  (componentsOf (chart.boxes.map (·.1)) chart.links).map fun ids =>
    { boxes := ids.filterMap fun id => chart.boxes.find? (·.1 == id)
      links := chart.links.filter (·.1 ∈ ids) }

end Chart

end ClassAtlas
