import ClassAtlas.Assembly
import ClassAtlas.Code.Bases
import ClassAtlas.Code.MemberDeclaration
import ClassAtlas.Declared

/-!
# Reading class declarations

The classes of a text come first, then its interfaces, then the relations in base lists. At last
every box gets the members found in all the blocks of its name. A name declared both as a class and
as an interface is a class.
-/

namespace ClassAtlas.Code

/-- Declares all types of a text. -/
def declareTypes (a : Assembly) (text : String) : Assembly :=
  (a.declareAll .classBox (declaredNames "class" text)).declareAll .interfaceBox
    (declaredNames "interface" text)

/-- The names that a text declares as interfaces and that are no classes. -/
def interfaceNames (a : Assembly) (text : String) : List String :=
  (declaredNames "interface" text).filter fun name =>
    (a.node? name).any fun n => n.kind = .interfaceBox

/-- Adds the members of all blocks of a name. -/
def readMembers (text : List Char) (a : Assembly) (name : String) : Assembly :=
  (bodies name text).foldl (fun a body => a.enrich name (declaredMembers body)) a

/-- Puts the diagram of a text together. -/
def assemble (settings : ReadSettings) (supply : Supply) (text : String) : Assembly :=
  let types := declareTypes (.start settings supply) text
  let related := types.relateAll (relations (interfaceNames types text) text)
  let names := (related.diagram.nodes.map (·.label)).filter (· ≠ "")
  names.foldl (readMembers text.toList) related

/-- Reads a diagram. -/
def read (engine : Engine Float) (settings : ReadSettings) (supply : Supply) (text : String) :
    Except Failure Assembly :=
  (assemble settings supply text).finish engine

end ClassAtlas.Code
