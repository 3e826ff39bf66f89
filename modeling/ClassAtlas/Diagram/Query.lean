import ClassAtlas.Diagram.Basic
import ClassAtlas.Failure

/-!
# Looking into diagrams and changing their elements

An id finds the first element that bears it. Elements are added at the end, under ids that are new
to the diagram; removing an element leaves the arrows that point at it in place, and these no longer
have two ends.
-/

namespace ClassAtlas

variable {K : Type}

/-- The element with an id. -/
def Diagram.find? (d : Diagram K) (id : String) : Option (Element K) :=
  d.elements.find? fun e => e.id == id

/-- The box with an id. -/
def Diagram.node? (d : Diagram K) (id : String) : Option (Node K) :=
  (d.find? id).bind Element.node?

/-- The boxes, in order. -/
def Diagram.nodes (d : Diagram K) : List (Node K) := d.elements.filterMap Element.node?

/-- The arrows, in order. -/
def Diagram.arrows (d : Diagram K) : List (Arrow K) := d.elements.filterMap Element.arrow?

/-- The first box with a given label. -/
def Diagram.labelled? (d : Diagram K) (label : String) : Option (Node K) :=
  d.nodes.find? fun n => n.text == some label

/-- The boxes at the two ends of an arrow, if both are there and have labels. -/
def Diagram.ends? (d : Diagram K) (arrow : Arrow K) : Option (Node K × Node K) := do
  let source ← d.node? arrow.source
  let target ← d.node? arrow.target
  if source.label = "" ∨ target.label = "" then none else some (source, target)

/-- The diagram with an element added at the end. -/
def Diagram.insert (d : Diagram K) (e : Element K) : Except Failure (Diagram K) :=
  if (d.find? e.id).isSome then .error (.duplicateElement d.id e.id)
  else .ok { d with elements := d.elements ++ [e] }

/-- The diagram without the elements that bear an id. -/
def Diagram.erase (d : Diagram K) (id : String) : Diagram K :=
  { d with elements := d.elements.filter fun e => e.id != id }

/-- Changes the first element of a list that bears an id. -/
def modifyFirst (id : String) (f : Element K → Element K) : List (Element K) → List (Element K)
  | [] => []
  | e :: es => if e.id = id then f e :: es else e :: modifyFirst id f es

/-- The diagram with the element that an id finds changed. -/
def Diagram.modify (d : Diagram K) (id : String) (f : Element K → Element K) : Diagram K :=
  { d with elements := modifyFirst id f d.elements }

end ClassAtlas
