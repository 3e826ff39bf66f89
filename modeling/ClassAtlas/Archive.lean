import ClassAtlas.Diagram.Basic

/-!
# The archive

Diagrams are kept under their ids, in the order in which the ids first arrived. Saving a diagram
stamps it with the time; saving it again keeps its place, and an id that was deleted comes back at
the end. What a caller does with a diagram it was given does not reach the archive.

An archive keeps the key of a diagram beside it, and everything is looked up by key.
-/

namespace ClassAtlas

/-- The diagrams that are kept, each under a key. -/
structure Archive (K : Type) where
  entries : List (String × Diagram K) := []

namespace Archive

variable {K : Type}

/-- The diagrams, in order. -/
def diagrams (archive : Archive K) : List (Diagram K) := archive.entries.map (·.2)

/-- The diagram under a key. -/
def find? (archive : Archive K) (key : String) : Option (Diagram K) :=
  (archive.entries.find? (·.1 == key)).map (·.2)

/-- Whether there is a diagram under a key. -/
def contains (archive : Archive K) (key : String) : Bool := archive.entries.any (·.1 == key)

/-- The number of diagrams. -/
def size (archive : Archive K) : Nat := archive.entries.length

/-- The archive with a diagram under a key: in the place of the one under this key, or at the
end. -/
def put (archive : Archive K) (key : String) (d : Diagram K) : Archive K where
  entries :=
    if archive.contains key then
      archive.entries.map fun entry => if entry.1 = key then (key, d) else entry
    else archive.entries ++ [(key, d)]

/-- A diagram saved at a given time, and the archive that holds it. -/
def save (archive : Archive K) (now : Int) (d : Diagram K) : Diagram K × Archive K :=
  let stamped := { d with updated := now }
  (stamped, archive.put d.id stamped)

/-- The archive without the diagram under a key. -/
def delete (archive : Archive K) (key : String) : Archive K where
  entries := archive.entries.filter (·.1 != key)

end Archive

end ClassAtlas
