import ClassAtlas.Dialect
import ClassAtlas.Text.Lower

/-!
# The catalogue of dialects

Dialects are looked up by name. Names are compared without the blanks around them and in lower case,
and a dialect may have several.
-/

namespace ClassAtlas

open Text

/-- The names under which dialects can be found. -/
structure Catalogue where
  entries : List (String × Dialect)
deriving Repr, DecidableEq

namespace Catalogue

/-- The form in which names are compared. -/
def key (name : String) : String := String.ofList (lower (trim name.toList))

/-- The names that are always there. -/
def standard : Catalogue where
  entries :=
    [("mermaid", .markup), ("markup", .markup), ("csharp", .code), ("c#", .code), ("code", .code)]

/-- The dialect entered under a key. -/
def lookup? (catalogue : Catalogue) (key : String) : Option Dialect :=
  (catalogue.entries.find? (·.1 == key)).map (·.2)

/-- Enters a dialect under a name; a name already in use now stands for the new one. -/
def enter (catalogue : Catalogue) (dialect : Dialect) (name : String) : Catalogue where
  entries := catalogue.entries.filter (·.1 != key name) ++ [(key name, dialect)]

/-- Enters a dialect under some names. -/
def enterAll (catalogue : Catalogue) (dialect : Dialect) (names : List String) : Catalogue :=
  names.foldl (·.enter dialect ·) catalogue

/-- The dialect of a name. No name counts as the empty one. -/
def find (catalogue : Catalogue) (name : Option String) : Except Failure Dialect :=
  match catalogue.lookup? (key (name.getD "")) with
  | some dialect => .ok dialect
  | none => .error (.unknownDialect name)

/-- The dialect to read a text in: the named one, or the one it seems to be written in if no name or
an empty one is given. -/
def choose (catalogue : Catalogue) (name : Option String) (text : String) :
    Except Failure Dialect :=
  let given := name.getD ""
  catalogue.find (some (if given = "" then (Dialect.guess text).name else given))

/-- Reads a diagram from a text. -/
def read (catalogue : Catalogue) (engine : Engine Float) (name : Option String)
    (settings : ReadSettings) (supply : Supply) (text : String) : Except Failure Assembly := do
  let dialect ← catalogue.choose name text
  dialect.read engine settings supply text

/-- Writes a diagram in the dialect of a name. -/
def write {K : Type} (catalogue : Catalogue) (name : String) (d : Diagram K) :
    Except Failure String := do
  let dialect ← catalogue.find (some name)
  return dialect.write d

end Catalogue

end ClassAtlas
