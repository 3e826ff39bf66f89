import ClassAtlas.Diagram.Query
import ClassAtlas.Markup.Statement
import ClassAtlas.Text.Lines

/-!
# Writing the markup

A diagram is written as a header, a block for every box that has a label, and a statement for every
arrow whose two ends have labels, all in the order of the elements.
-/

namespace ClassAtlas.Markup

open Text

variable {K : Type}

/-- The lines of the members of a box, as they stand; parentheses mark methods. -/
def memberLines (members : Members) : List String :=
  members.attributes.map (fun a => "    " ++ a) ++
    members.methods.map (fun m => "    " ++ m ++ "()")

/-- The block of a box. -/
def nodeLines (node : Node K) : List String :=
  ["  class " ++ node.label ++ " \x7b"] ++
    (if node.kind = .interfaceBox then ["    <<interface>>"] else []) ++
    (node.members.map memberLines).getD [] ++ ["  \x7d"]

/-- The statement of an arrow. -/
def arrowLine? (d : Diagram K) (arrow : Arrow K) : Option String :=
  (d.ends? arrow).map fun (source, target) =>
    "  " ++ source.label ++ " " ++ kindSymbol arrow.kind ++ " " ++ target.label

/-- The lines of a diagram. -/
def lines (d : Diagram K) : List String :=
  ["classDiagram"] ++ (d.nodes.filter (·.label ≠ "")).flatMap nodeLines ++
    d.arrows.filterMap (arrowLine? d)

/-- A diagram as markup. -/
def write (d : Diagram K) : String := unlines (lines d)

end ClassAtlas.Markup
