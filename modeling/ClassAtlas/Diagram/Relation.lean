import ClassAtlas.Diagram.Basic

/-!
# Relations between names

What a text says about two classes, before it is known whether both are declared.
-/

namespace ClassAtlas

/-- A relation between two names. -/
structure Relation where
  source : String
  target : String
  kind : ArrowKind
deriving Repr, DecidableEq

end ClassAtlas
