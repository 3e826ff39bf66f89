import ClassAtlas.Archive
import ClassAtlas.Catalogue
import ClassAtlas.Editor.Changes
import ClassAtlas.Supply

/-!
# Editing kept diagrams

An editor works on an archive, takes ids and times from a supply, and leaves the drawing of layouts
to an engine. An operation loads a diagram, changes it and saves it again; it may be refused, and
what it has taken or saved before stays taken or saved.
-/

namespace ClassAtlas

/-- What an editor works with. -/
structure Desk where
  engine : Engine Float
  archive : Archive Float := {}
  supply : Supply

/-- An operation on a desk that may be refused. -/
abbrev Edit := ExceptT Failure (StateM Desk)

namespace Edit

/-! ## Steps -/

/-- Refuses the operation. -/
def refuse {α : Type} (failure : Failure) : Edit α := throw failure

/-- Takes the next id. -/
def takeId : Edit String := do
  let desk ← get
  set { desk with supply := desk.supply.afterId }
  return desk.supply.nextId

/-- Reads the clock. -/
def readClock : Edit Int := do
  let desk ← get
  set { desk with supply := desk.supply.afterTime }
  return desk.supply.now

/-- The diagram with an id. -/
def load (id : String) : Edit (Diagram Float) := do
  match (← get).archive.find? id with
  | some d => return d
  | none => refuse (.noDiagram id)

/-- Saves a diagram, and gives it as it was saved. -/
def save (d : Diagram Float) : Edit (Diagram Float) := do
  let now ← readClock
  let desk ← get
  let (saved, archive) := desk.archive.save now d
  set { desk with archive }
  return saved

/-- A result that may be a failure. -/
def ofExcept {α : Type} (result : Except Failure α) : Edit α :=
  match result with
  | .ok a => return a
  | .error failure => refuse failure

/-! ## Operations on diagrams -/

/-- Makes an empty diagram. -/
def create (name : String) : Edit (Diagram Float) := do
  let id ← takeId
  let created ← readClock
  let updated ← readClock
  save { id, name, created, updated }

/-- Adds an element under a new id. -/
def add (d : Diagram Float) (element : String → Element Float) : Edit (Element Float) := do
  let e := element (← takeId)
  let changed ← ofExcept (d.insert e)
  let _ ← save changed
  return e

/-- Adds a box. -/
def addNode (diagram kind : String) (position : Point Float) (size : Option (Size Float))
    (text : Option String) : Edit (Element Float) := do
  let known := NodeKind.ofWord kind
  if known.isKnown then
    let d ← load diagram
    add d fun id =>
      .node { id, kind := known, position := some position, size, text, members := some {} }
  else refuse (.notNodeKind kind)

/-- Checks that a diagram has an element. -/
def require (d : Diagram Float) (diagram element : String) : Edit Unit :=
  if (d.find? element).isSome then return () else refuse (.noElement diagram element)

/-- Adds an arrow between two elements. -/
def connect (diagram source target kind : String) : Edit (Element Float) := do
  let known := ArrowKind.ofWord kind
  if known.isKnown then
    let d ← load diagram
    require d diagram source
    require d diagram target
    add d fun id => .arrow { id, kind := known, source, target }
  else refuse (.notArrowKind kind)

/-- Adds a note. -/
def annotate (diagram : String) (position : Point Float) (text : String) :
    Edit (Element Float) := do
  let d ← load diagram
  add d fun id => .note { id, text := some text, position := some position }

/-- Gives new values to fields of an element. -/
def update (diagram element : String) (values : NamedValues Float) : Edit (Element Float) := do
  let changes ← ofExcept (Changes.ofNamed values)
  let d ← load diagram
  match d.find? element with
  | none => refuse (.noElement diagram element)
  | some old =>
    let new ← ofExcept (changes.apply old)
    let _ ← save (d.modify element fun _ => new)
    return new

/-- Removes an element. The diagram is saved even if there is no such element. -/
def remove (diagram element : String) : Edit Unit := do
  let d ← load diagram
  let _ ← save (d.erase element)

/-! ## Texts -/

/-- Reads a diagram from a text and saves it. The ids and times that it is put together with are
taken even if it cannot be laid out. -/
def readText (text : String) (dialect : Option String) (settings : ReadSettings) :
    Edit (Diagram Float) := do
  let found ← ofExcept (Catalogue.standard.choose dialect text)
  let desk ← get
  let a := found.assemble settings desk.supply text
  set { desk with supply := a.supply }
  let read ← ofExcept (a.finish desk.engine)
  save read.diagram

/-- Writes a diagram as text. -/
def writeText (diagram dialect : String) : Edit String := do
  let found ← ofExcept (Catalogue.standard.find (some dialect))
  let d ← load diagram
  return found.write d

end Edit

end ClassAtlas
