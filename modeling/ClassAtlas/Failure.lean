import ClassAtlas.Text.Quoted

/-!
# Failures

The causes for which an operation on diagrams is refused, and the message of each.
-/

namespace ClassAtlas

open Text

/-- Why an operation was refused. -/
inductive Failure where
  | noDiagram (diagram : String)
  | noElement (diagram element : String)
  | unknownDialect (name : Option String)
  | duplicateElement (diagram element : String)
  | notNodeKind (word : String)
  | notArrowKind (word : String)
  /-- An edit names fields that no edit may change. -/
  | fixedFields (names : List String)
  | kindChange (old new : String)
  /-- An edit names a field that elements of the kind do not have. -/
  | fieldMissing (kind field : String)
  /-- A component of a diagram cannot be drawn. -/
  | layoutFailed (diagram cause : String)
  | unknownOption (key : String)
deriving Repr, DecidableEq

/-- Texts between brackets, separated by commas. -/
def bracketed (texts : List String) : String := "[" ++ ", ".intercalate texts ++ "]"

/-- The message of a failure. -/
def Failure.message : Failure → String
  | .noDiagram diagram => "Diagram with id " ++ diagram ++ " not found"
  | .noElement diagram element =>
    "Element with id " ++ element ++ " not found in diagram " ++ diagram
  | .unknownDialect name =>
    "No converter registered for notation: " ++ (name.map quoted).getD "None"
  | .duplicateElement diagram element =>
    "Element id " ++ element ++ " already exists in diagram " ++ diagram
  | .notNodeKind word => "add_element creates class or interface nodes, got " ++ quoted word
  | .notArrowKind word => "Unknown relationship kind: " ++ quoted word
  | .fixedFields names =>
    "Cannot update element fields: " ++ bracketed ((names.mergeSort (· ≤ ·)).map quoted)
  | .kindChange old new =>
    "Cannot change a " ++ quoted old ++ " element into " ++ quoted new
  | .fieldMissing kind field => quoted kind ++ " elements have no " ++ quoted field
  | .layoutFailed diagram cause =>
    "Grandalf layout failed (diagram " ++ diagram ++ "): " ++ cause
  | .unknownOption key => quoted key

end ClassAtlas
