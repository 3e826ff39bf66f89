import ClassAtlas.Geometry.Route
import ClassAtlas.Layout.Chart

/-!
# Placing the components of a drawing

A drawing gives every box of a component a center, anywhere in the plane. The components are moved
next to each other from left to right, each to the top of the diagram, and every arrow between two
boxes gets a new route. Nothing else in the diagram changes.

The definitions work for any way to find the components, any drawing and any kind of coordinates.
Drawing a component may fail; the layout then fails as a whole, and says of which diagram.
-/

namespace ClassAtlas

/-- A way to draw one component: the centers of its boxes, by their ids, or the reason why it cannot
be drawn. -/
abbrev Drawing (K : Type) := LayoutSettings K → Chart K → Except String (List (String × Point K))

/-- What a layout needs to know about drawing: the components that a chart falls into, in the order
in which they are placed, and a drawing of each. -/
structure Engine (K : Type) where
  components : Chart K → List (Chart K)
  drawing : Drawing K

variable {K : Type} [Add K] [Sub K] [Neg K] [Div K] [LT K] [DecidableLT K] [LE K] [DecidableLE K]
  [OfNat K 0] [OfNat K 1] [OfNat K 2]

/-! ## Components -/

/-- The least of some numbers, the first of equal ones. -/
def least (x : K) (xs : List K) : K := xs.foldl (fun m y => if y < m then y else m) x

/-- The greatest of some numbers, the first of equal ones. -/
def greatest (x : K) (xs : List K) : K := xs.foldl (fun m y => if m < y then y else m) x

/-- The center that a drawing gives to a box; a box that was not drawn is at the origin. -/
def centerOf (centers : List (String × Point K)) (id : String) : Point K :=
  ((centers.find? (·.1 == id)).map (·.2)).getD ⟨0, 0⟩

/-- Puts a component with its left edge at a given place and its top at the padding. Gives the top
left corners of its boxes, and the left edge of the next component. -/
def placeComponent (settings : LayoutSettings K) (left : K) (boxes : List (String × Size K))
    (center : String → Point K) : List (String × Point K) × K :=
  match boxes with
  | [] => ([], left)
  | box :: rest =>
    let leftOf := fun (b : String × Size K) => (center b.1).x - b.2.width / 2
    let rightOf := fun (b : String × Size K) => (center b.1).x + b.2.width / 2
    let topOf := fun (b : String × Size K) => (center b.1).y - b.2.height / 2
    let minX := least (leftOf box) (rest.map leftOf)
    let maxX := greatest (rightOf box) (rest.map rightOf)
    let minY := least (topOf box) (rest.map topOf)
    let corner := fun (b : String × Size K) =>
      b.2.cornerAt ⟨(center b.1).x - minX + left, (center b.1).y - minY + settings.padding⟩
    (boxes.map fun b => (b.1, corner b), left + ((maxX - minX) + settings.boxGap))

/-- The top left corners of the boxes of some components, placed from left to right. The first
component that cannot be drawn ends it. -/
def placeComponents (settings : LayoutSettings K) (drawing : Drawing K) :
    K → List (Chart K) → Except String (List (String × Point K))
  | _, [] => .ok []
  | left, chart :: charts => do
    let centers ← drawing settings chart
    let (corners, next) := placeComponent settings left chart.boxes (centerOf centers)
    let others ← placeComponents settings drawing next charts
    return corners ++ others

/-- The top left corners that an engine finds for the boxes of a diagram. -/
def Engine.corners (engine : Engine K) (settings : LayoutSettings K) (d : Diagram K) :
    Except String (List (String × Point K)) :=
  placeComponents settings engine.drawing settings.padding
    (engine.components (Chart.ofDiagram settings d))

/-! ## Diagrams -/

/-- Moves an element that is a box. -/
def Element.moveTo (corner : Point K) (e : Element K) : Element K :=
  match e.node? with
  | some n => .node { n with position := some corner }
  | none => e

/-- The diagram with its boxes at given corners. -/
def Diagram.moveBoxes (d : Diagram K) (corners : List (String × Point K)) : Diagram K :=
  corners.foldl (fun d (id, corner) => d.modify id (·.moveTo corner)) d

/-- The box that a node takes up. -/
def Node.box (settings : LayoutSettings K) (node : Node K) : Box K :=
  (node.size.getD settings.boxSize).boxAt (node.position.getD ⟨0, 0⟩)

/-- The line of an arrow between two boxes. -/
def routeBetween (source target : Box K) : List (Point K) :=
  clipEnds (route source.center target.center) (some source) (some target)

/-- Gives an element of a diagram a new line, if it is an arrow that runs between two boxes. -/
def Diagram.reroute (settings : LayoutSettings K) (d : Diagram K) (e : Element K) : Element K :=
  match e.arrow? with
  | none => e
  | some arrow =>
    match d.node? arrow.source, d.node? arrow.target with
    | some source, some target =>
      let points := routeBetween (source.box settings) (target.box settings)
      .arrow { arrow with points := some points }
    | _, _ => e

/-- The diagram with new lines for its arrows. -/
def Diagram.rerouteAll (settings : LayoutSettings K) (d : Diagram K) : Diagram K :=
  { d with elements := d.elements.map (d.reroute settings) }

/-- The diagram with its boxes at given corners and its arrows drawn between them. -/
def Diagram.redraw (settings : LayoutSettings K) (d : Diagram K)
    (corners : List (String × Point K)) : Diagram K :=
  (d.moveBoxes corners).rerouteAll settings

/-- Lays a diagram out by a given way to find its components and to draw them. -/
def Diagram.arrangeWith (engine : Engine K) (settings : LayoutSettings K) (d : Diagram K) :
    Except Failure (Diagram K) :=
  if d.nodes.isEmpty then .ok d
  else
    match engine.corners settings d with
    | .ok corners => .ok (d.redraw settings corners)
    | .error cause => .error (.layoutFailed d.id cause)

end ClassAtlas
