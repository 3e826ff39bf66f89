import ClassAtlas.Assembly
import ClassAtlas.Declared
import ClassAtlas.Markup.Statement

/-!
# Reading the markup

Every name that the word `class` declares becomes a class; statements relate these names. All else,
class bodies included, is passed over.
-/

namespace ClassAtlas.Markup

/-- Puts the diagram of a text together. -/
def assemble (settings : ReadSettings) (supply : Supply) (text : String) : Assembly :=
  let classes := (Assembly.start settings supply).declareAll .classBox (declaredNames "class" text)
  classes.relateAll ((relationStatements text).map (·.relation))

/-- Reads a diagram. -/
def read (engine : Engine Float) (settings : ReadSettings) (supply : Supply) (text : String) :
    Except Failure Assembly :=
  (assemble settings supply text).finish engine

end ClassAtlas.Markup
