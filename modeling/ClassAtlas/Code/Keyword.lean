import ClassAtlas.Text.Scan

/-!
# Keywords of declarations

The words that the reader of class declarations knows. Everything else in the text is skipped.
-/

namespace ClassAtlas.Code

/-- Words as lists of characters. -/
def spelled (words : List String) : List (List Char) := words.map String.toList

/-- The words that declare a type with a body that is read. -/
def typeWords : List (List Char) := spelled ["class", "interface"]

/-- The words that declare a type of any sort. -/
def nestedTypeWords : List (List Char) := spelled ["class", "interface", "struct", "enum"]

/-- The words that say who may use a member. -/
def accessWords : List (List Char) := spelled ["public", "private", "protected", "internal"]

/-- The words that may stand second in a compound access, as in `protected internal`. -/
def secondAccessWords : List (List Char) := spelled ["internal", "protected"]

/-- The words that may stand between the access of a member and its type. -/
def memberModifiers : List (List Char) :=
  spelled ["static", "virtual", "override", "abstract", "async", "readonly", "new", "sealed",
    "extern", "unsafe", "required", "partial"]

/-- The words that may stand before the declaration of a nested type. -/
def typeModifiers : List (List Char) :=
  spelled ["public", "private", "protected", "internal", "static", "sealed", "abstract", "partial",
    "readonly", "unsafe", "new", "ref"]

/-- The words that say how a property may be used. -/
def accessorWords : List (List Char) := spelled ["get", "set", "init"]

end ClassAtlas.Code
