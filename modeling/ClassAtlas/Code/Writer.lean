import ClassAtlas.Diagram.Member
import ClassAtlas.Diagram.Query
import ClassAtlas.Text.Lines

/-!
# Writing class declarations

Every box that has a label is written as a class or an interface. What a class extends and
implements stands in its header. Uses and associations have no form in declarations of this kind,
and are added as comments at the end. Members are written by their names alone: an attribute as a
property, a method as a stub.
-/

namespace ClassAtlas.Code

open Text

variable {K : Type}

/-! ## Headers -/

/-- The labels at the two ends of an arrow of a given kind. -/
def labelsOf (d : Diagram K) (kind : ArrowKind) (arrow : Arrow K) : Option (String × String) :=
  if arrow.kind = kind then
    (d.ends? arrow).map fun (source, target) => (source.label, target.label)
  else none

/-- The labels that arrows of a kind lead to from a given one, in the order of the arrows. -/
def targets (d : Diagram K) (kind : ArrowKind) (label : String) : List String :=
  (d.arrows.filterMap (labelsOf d kind)).filterMap fun (source, target) =>
    if source = label then some target else none

/-- The bases of a class: one parent, the first, and every interface once. -/
def bases (d : Diagram K) (label : String) : List String :=
  (targets d .inheritance label).take 1 ++ (targets d .implementation label).eraseDups

/-- The header of a class. -/
def classHeader (label : String) (bases : List String) : String :=
  "public class " ++ label ++ (if bases = [] then "" else " : " ++ ", ".intercalate bases)

/-! ## Bodies -/

/-- The name in a member line. -/
def memberName? (line : String) : Option String := (MemberLine.parse? line).map (·.name)

/-- The property for an attribute. -/
def propertyLine (name : String) : String := "    public string " ++ name ++ " \x7b get; set; \x7d"

/-- The stub for a method. -/
def methodLines (name : String) : List String :=
  ["    public void " ++ name ++ "()", "    \x7b", "        // Method body", "    \x7d"]

/-- The body of a class. An empty line stands before every method that is not the first member. -/
def bodyLines (members : Members) : List String :=
  let properties := (members.attributes.filterMap memberName?).map propertyLine
  let methods := (members.methods.filterMap memberName?).map methodLines
  properties ++ (if properties = [] then [""].intercalate methods else methods.flatMap ("" :: ·))

/-- The declaration of a class. -/
def classLines (node : Node K) (bases : List String) : List String :=
  [classHeader node.label bases, "\x7b"] ++ (node.members.map bodyLines).getD [] ++ ["\x7d"]

/-- The declaration of an interface, which has methods only. -/
def interfaceLines (node : Node K) : List String :=
  ["public interface " ++ node.label, "\x7b"] ++
    ((node.members.map (·.methods)).getD []).filterMap (fun m =>
      (memberName? m).map fun name => "    public void " ++ name ++ "();") ++ ["\x7d"]

/-! ## Diagrams -/

/-- The declaration of a box. -/
def nodeLines (d : Diagram K) (node : Node K) : List String :=
  if node.kind = .interfaceBox then interfaceLines node
  else classLines node (bases d node.label)

/-- The comment for an arrow that no declaration can express. -/
def comment? (d : Diagram K) (arrow : Arrow K) : Option String :=
  let verb := match arrow.kind with
    | .dependency => some "depends on"
    | .association => some "is associated with"
    | _ => none
  verb.bind fun verb => (d.ends? arrow).map fun (source, target) =>
    "// " ++ source.label ++ " " ++ verb ++ " " ++ target.label

/-- The declarations of a diagram and the comments after them. -/
def blocks (d : Diagram K) : List (List String) :=
  let declarations := (d.nodes.filter (·.label ≠ "")).map (nodeLines d)
  let comments := d.arrows.filterMap (comment? d)
  declarations ++ (if comments = [] then [] else [comments])

/-- A diagram as class declarations, separated by empty lines. -/
def write (d : Diagram K) : String := unlines ([""].intercalate (blocks d))

end ClassAtlas.Code
