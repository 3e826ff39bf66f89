import ClassAtlas.Diagram.Relation
import ClassAtlas.ReadOptions
import ClassAtlas.Layout.Placement
import ClassAtlas.Supply

/-!
# Putting a diagram together

Both readers build a diagram by name. A name is declared once, and later declarations of it change
nothing. The boxes form one vertical sequence in the order of their declaration, in a column of
their own for classes and for interfaces. A relation is kept only if both its names are declared.

A box is shared: it stands among the elements of the diagram, and it is what its name is filed
under. Both refer to it by its place among the elements, at which it stays.
-/

namespace ClassAtlas

/-- A diagram that is being put together. -/
structure Assembly where
  settings : ReadSettings
  diagram : Diagram Float
  /-- The places of the boxes among the elements, filed under the names they were declared for. -/
  places : List (String × Nat) := []
  /-- The vertical place of the next box. -/
  nextY : Float
  supply : Supply

namespace Assembly

/-- An empty diagram under a new id. -/
def start (settings : ReadSettings) (supply : Supply) : Assembly :=
  let afterId := supply.afterId
  { settings
    diagram :=
      { id := supply.nextId
        name := settings.diagramName
        created := afterId.now
        updated := afterId.afterTime.now }
    nextY := settings.baseY
    supply := afterId.afterTime.afterTime }

/-- The place that is filed under a name. -/
def place? (a : Assembly) (name : String) : Option Nat :=
  (a.places.find? (·.1 == name)).map (·.2)

/-- The box at a place. -/
def boxAt? (a : Assembly) (place : Nat) : Option (Node Float) :=
  match a.diagram.elements[place]? with
  | some (.node n) => some n
  | _ => none

/-- The box that a name was declared for. -/
def node? (a : Assembly) (name : String) : Option (Node Float) := (a.place? name).bind a.boxAt?

/-- Adds an element under the next id. -/
def add (a : Assembly) (element : String → Element Float) : Assembly :=
  { a with
    diagram := { a.diagram with elements := a.diagram.elements ++ [element a.supply.nextId] }
    supply := a.supply.afterId }

/-- The box for a name that has not been declared. -/
def newNode (a : Assembly) (name : String) (kind : NodeKind) (id : String) : Node Float :=
  { id, kind
    position :=
      some ⟨if kind = .interfaceBox then a.settings.interfaceX else a.settings.classX, a.nextY⟩
    size := some ⟨a.settings.nodeWidth, a.settings.nodeHeight⟩
    text := some name }

/-- Adds the box for a name that has not been declared, and files it. -/
def addNew (a : Assembly) (name : String) (kind : NodeKind) : Assembly :=
  { a.add (.node <| a.newNode name kind ·) with
    places := a.places ++ [(name, a.diagram.elements.length)]
    nextY := a.nextY + a.settings.stepY }

/-- Declares a name, and gives the place of its box: of the one that is filed under the name, if
there is one, and else of a new one. -/
def declare (a : Assembly) (name : String) (kind : NodeKind) : Nat × Assembly :=
  match a.place? name with
  | some place => (place, a)
  | none => (a.diagram.elements.length, a.addNew name kind)

/-- The arrow for a relation between two boxes. -/
def newArrow (source target : Node Float) (kind : ArrowKind) (id : String) : Arrow Float :=
  { id, kind, source := source.id, target := target.id }

/-- Relates two names, and gives the arrow, if both are declared. -/
def relate (a : Assembly) (r : Relation) : Option (Arrow Float) × Assembly :=
  match a.node? r.source, a.node? r.target with
  | some source, some target =>
    (some (newArrow source target r.kind a.supply.nextId),
      a.add (.arrow <| newArrow source target r.kind ·))
  | _, _ => (none, a)

/-- Declares names of one kind, in order. -/
def declareAll (a : Assembly) (kind : NodeKind) (names : List String) : Assembly :=
  names.foldl (fun a name => (a.declare name kind).2) a

/-- Relates names, in order. -/
def relateAll (a : Assembly) (relations : List Relation) : Assembly :=
  relations.foldl (fun a r => (a.relate r).2) a

/-- The box with further members. -/
def withMembers (members : Members) : Element Float → Element Float
  | .node n =>
    let old := n.members.getD {}
    let new : Members := ⟨old.attributes ++ members.attributes, old.methods ++ members.methods⟩
    .node { n with members := some new }
  | e => e

/-- Adds members to the box of a name, if it is declared and there are any. -/
def enrich (a : Assembly) (name : String) (members : Members) : Assembly :=
  match a.place? name with
  | some place =>
    if members.attributes = [] ∧ members.methods = [] then a
    else
      { a with
        diagram :=
          { a.diagram with elements := a.diagram.elements.modify place (withMembers members) } }
  | none => a

/-- Arranges the boxes as the settings say. -/
def finish (engine : Engine Float) (a : Assembly) : Except Failure Assembly :=
  if a.settings.arrangement = .layered then
    (a.diagram.arrangeWith engine a.settings.layout).map fun diagram => { a with diagram }
  else .ok a

end Assembly

end ClassAtlas
