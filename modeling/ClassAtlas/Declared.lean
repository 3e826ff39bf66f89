import ClassAtlas.Text.Scan

/-!
# Names declared in a text

Both written forms of a diagram declare a class by a keyword, blanks and a name. Declarations are
found anywhere in the text, and a name counts where it stands first.
-/

namespace ClassAtlas

open Text

/-- A keyword that begins a word, blanks, and the name after them. -/
def declared (keyword : List Char) : Pattern (List Char) := fun before s => do
  guard (isBoundary before s.head?)
  let s ← literal keyword s
  let s ← gap s
  word s

/-- The names that a keyword declares in a text, each once, in order. -/
def declaredNames (keyword text : String) : List String :=
  ((occurrences (declared keyword.toList) text.toList).map String.ofList).eraseDups

end ClassAtlas
