import ClassAtlas.Diagram.Query

/-!
# Changes to an element

An edit names fields of an element and gives their new values; `none` as a value clears a field. The
kind of an element changes only within its family. No value for the kind, or an empty word, leaves
it, and members cannot be cleared. An edit is refused if it names anything but the six fields that
may be changed, and at the first field that the element does not have.
-/

namespace ClassAtlas

variable {K : Type}

/-! ## Named values -/

/-- A field that an edit may change. -/
inductive UpdatableField where
  | kind
  | size
  | text
  | members
  | position
  | points
deriving Repr, DecidableEq

namespace UpdatableField

/-- The fields that an edit may change. -/
def all : List UpdatableField := [.kind, .size, .text, .members, .position, .points]

/-- What a field is called. -/
def name : UpdatableField → String
  | .kind => "kind"
  | .size => "size"
  | .text => "text"
  | .members => "properties"
  | .position => "position"
  | .points => "points"

/-- The values of a field. -/
def Value (K : Type) : UpdatableField → Type
  | .kind => String
  | .size => Size K
  | .text => String
  | .members => Members
  | .position => Point K
  | .points => List (Point K)

end UpdatableField

/-- What a caller gives for an edit: names, and a value or `none` for each field that is among
them. -/
structure NamedValues (K : Type) where
  names : List String
  value : (field : UpdatableField) → Option (field.Value K) := fun _ => none

namespace NamedValues

/-- The names that are none of a field that an edit may change. -/
def unknown (v : NamedValues K) : List String :=
  (v.names.filter (· ∉ UpdatableField.all.map UpdatableField.name)).eraseDups

/-- What is given for a field: nothing at all, unless the field is named. -/
def given (v : NamedValues K) (field : UpdatableField) : Option (Option (field.Value K)) :=
  if field.name ∈ v.names then some (v.value field) else none

end NamedValues

/-- What an edit changes: a field that is `none` stays, and any other gets the value inside. -/
structure Changes (K : Type) where
  kind : Option (Option String) := none
  size : Option (Option (Size K)) := none
  text : Option (Option String) := none
  members : Option (Option Members) := none
  position : Option (Option (Point K)) := none
  points : Option (Option (List (Point K))) := none

/-- The changes that named values ask for. -/
def NamedValues.changes (v : NamedValues K) : Changes K where
  kind := v.given .kind
  size := v.given .size
  text := v.given .text
  members := v.given .members
  position := v.given .position
  points := v.given .points

/-- The changes that named values ask for, if there is a field for every name. -/
def Changes.ofNamed (v : NamedValues K) : Except Failure (Changes K) :=
  if v.unknown = [] then .ok v.changes else .error (.fixedFields v.unknown)

/-! ## Fields -/

namespace Element

/-- Changes the kind to another one of the same family. -/
def setKind (word : String) (e : Element K) : Except Failure (Element K) :=
  let refused := .error (.kindChange e.kindWord word)
  match e with
  | .node n =>
    let kind := NodeKind.ofWord word
    if n.kind.isKnown && kind.isKnown then .ok (.node { n with kind }) else refused
  | .arrow a =>
    let kind := ArrowKind.ofWord word
    if kind.isKnown then .ok (.arrow { a with kind }) else refused
  | .note _ => refused

/-- Changes the size of a box. -/
def setSize (size : Option (Size K)) : Element K → Except Failure (Element K)
  | .node n => .ok (.node { n with size })
  | e => .error (.fieldMissing e.kindWord UpdatableField.size.name)

/-- Changes the text of a box or a note. -/
def setText (text : Option String) : Element K → Except Failure (Element K)
  | .node n => .ok (.node { n with text })
  | .note t => .ok (.note { t with text })
  | e => .error (.fieldMissing e.kindWord UpdatableField.text.name)

/-- Changes the members of a box. -/
def setMembers (members : Option Members) : Element K → Except Failure (Element K)
  | .node n => .ok (.node { n with members := members.or n.members })
  | e => .error (.fieldMissing e.kindWord UpdatableField.members.name)

/-- Changes the position of a box or a note. -/
def setPosition (position : Option (Point K)) : Element K → Except Failure (Element K)
  | .node n => .ok (.node { n with position })
  | .note t => .ok (.note { t with position })
  | e => .error (.fieldMissing e.kindWord UpdatableField.position.name)

/-- Changes the line of an arrow. -/
def setPoints (points : Option (List (Point K))) : Element K → Except Failure (Element K)
  | .arrow a => .ok (.arrow { a with points })
  | e => .error (.fieldMissing e.kindWord UpdatableField.points.name)

/-- Changes a field if there is a value for it. -/
def setIf {α : Type} (value : Option α) (set : α → Element K → Except Failure (Element K))
    (e : Element K) : Except Failure (Element K) :=
  match value with
  | some a => set a e
  | none => .ok e

end Element

/-- The word for a new kind, if one is given. -/
def Changes.newKind (c : Changes K) : Option String := c.kind.join.filter (· ≠ "")

/-- Makes the changes, field by field. -/
def Changes.apply (c : Changes K) (e : Element K) : Except Failure (Element K) := do
  let e ← e.setIf c.newKind Element.setKind
  let e ← e.setIf c.size Element.setSize
  let e ← e.setIf c.text Element.setText
  let e ← e.setIf c.members Element.setMembers
  let e ← e.setIf c.position Element.setPosition
  e.setIf c.points Element.setPoints

end ClassAtlas
