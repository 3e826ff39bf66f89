import ClassAtlas.Geometry.Basic

/-!
# Class diagrams

A diagram is a named list of elements: boxes for classes and interfaces, arrows for the relations
between them, and free notes. The order of the elements is part of the diagram, since both written
forms follow it. Arrows refer to their ends by id, and an arrow may outlive the element it points
at.

Boxes and arrows of kinds this library does not know are kept as they are; they take no part in
layout or writing.
-/

namespace ClassAtlas

/-- What a box stands for. -/
inductive NodeKind where
  | classBox
  | interfaceBox
  | other (word : String)
deriving Repr, DecidableEq

/-- The word for a kind of box. -/
def NodeKind.word : NodeKind → String
  | .classBox => "class"
  | .interfaceBox => "interface"
  | .other word => word

/-- The kind of box that a word names. -/
def NodeKind.ofWord (word : String) : NodeKind :=
  if word = "class" then .classBox else if word = "interface" then .interfaceBox else .other word

/-- Whether the library knows the kind. -/
def NodeKind.isKnown : NodeKind → Bool
  | .other _ => false
  | _ => true

/-- What an arrow stands for. -/
inductive ArrowKind where
  /-- The source extends the target. -/
  | inheritance
  /-- The source implements the target. -/
  | implementation
  /-- The source uses the target. -/
  | dependency
  /-- The source refers to the target. -/
  | association
  | other (word : String)
deriving Repr, DecidableEq

/-- The word for a kind of arrow. -/
def ArrowKind.word : ArrowKind → String
  | .inheritance => "inheritance"
  | .implementation => "implementation"
  | .dependency => "dependency"
  | .association => "association"
  | .other word => word

/-- The kind of arrow that a word names. -/
def ArrowKind.ofWord (word : String) : ArrowKind :=
  if word = "inheritance" then .inheritance
  else if word = "implementation" then .implementation
  else if word = "dependency" then .dependency
  else if word = "association" then .association
  else .other word

/-- Whether the library knows the kind. -/
def ArrowKind.isKnown : ArrowKind → Bool
  | .other _ => false
  | _ => true

/-- Whether arrows of the kind are drawn upwards, from the source below to the target above. -/
def ArrowKind.pointsUp (kind : ArrowKind) : Bool :=
  kind == .inheritance || kind == .implementation

/-- The members of a class or interface, each a line such as `+ name: string`. -/
structure Members where
  attributes : List String := []
  methods : List String := []
deriving Repr, DecidableEq

/-- A class or interface box. -/
structure Node (K : Type) where
  id : String
  kind : NodeKind
  position : Option (Point K)
  size : Option (Size K) := none
  text : Option String := none
  members : Option Members := none
deriving Repr, DecidableEq

/-- A directed relation between two elements, which are given by their ids. -/
structure Arrow (K : Type) where
  id : String
  kind : ArrowKind
  source : String
  target : String
  /-- The line along which the arrow is drawn. -/
  points : Option (List (Point K)) := none
deriving Repr, DecidableEq

/-- A free text that takes no part in relations. -/
structure Note (K : Type) where
  id : String
  text : Option String
  position : Option (Point K)
  kind : String := "text"
deriving Repr, DecidableEq

/-- An element of a diagram. -/
inductive Element (K : Type) where
  | node (node : Node K)
  | arrow (arrow : Arrow K)
  | note (note : Note K)
deriving Repr, DecidableEq

/-- A class diagram, with the times at which it was made and last saved. -/
structure Diagram (K : Type) where
  id : String
  name : String
  elements : List (Element K) := []
  created : Int
  updated : Int
deriving Repr, DecidableEq

variable {K : Type}

/-- The label of a box, empty where it has none. -/
def Node.label (node : Node K) : String := node.text.getD ""

/-- The id of an element. -/
def Element.id : Element K → String
  | .node n => n.id
  | .arrow a => a.id
  | .note t => t.id

/-- The word for the kind of an element. -/
def Element.kindWord : Element K → String
  | .node n => n.kind.word
  | .arrow a => a.kind.word
  | .note t => t.kind

/-- The box that an element is, if it is one of a known kind. -/
def Element.node? : Element K → Option (Node K)
  | .node n => if n.kind.isKnown then some n else none
  | _ => none

/-- The arrow that an element is, if it is one of a known kind. -/
def Element.arrow? : Element K → Option (Arrow K)
  | .arrow a => if a.kind.isKnown then some a else none
  | _ => none

end ClassAtlas
