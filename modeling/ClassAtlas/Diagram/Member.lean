import ClassAtlas.Text.Scan

/-!
# Member lines

A member of a class is a line `<visibility> <name>: <type>`. Lines are read leniently: the
visibility and the type may be missing, a parameter list may follow the name, and blanks may stand
anywhere between the parts. A line without a name at its place is no member line.
-/

namespace ClassAtlas

open Text

/-- The parts of a member line. The visibility is empty where the line has none. -/
structure MemberLine where
  visibility : String
  name : String
  type : Option String
deriving Repr, DecidableEq

/-- The mark of a visibility keyword; protected and internal members share one. -/
def visibilityMark (keyword : String) : String :=
  if keyword = "public" then "+" else if keyword = "private" then "-" else "#"

/-- The line of a member. -/
def memberLine (mark name type : String) : String := mark ++ " " ++ name ++ ": " ++ type

namespace MemberLine

/-- The type in the text after the colon: all of it but the blanks at its ends, on one line. A text
of blanks alone counts as a type of one blank, its last one that does not end a line. -/
def typeText (s : List Char) : Option (List Char) :=
  match trimStart s with
  | [] => (s.reverse.find? (· ≠ '\n')).map ([·])
  | c :: r => if '\n' ∈ trimEnd (c :: r) then none else some (trimEnd (c :: r))

/-- The text after a parameter list, if one begins the text. -/
def afterParameters : List Char → Option (List Char)
  | '(' :: s =>
    match s.dropWhile (· ≠ ')') with
    | _ :: r => some (trimStart r)
    | [] => none
  | s => some s

/-- The visibility mark that a text begins with, and the text after it. -/
def mark : List Char → List Char × List Char
  | c :: s => if c ∈ ['+', '-', '#', '~'] then ([c], s) else ([], c :: s)
  | [] => ([], [])

/-- Reads a member line. -/
def ofChars? (s : List Char) : Option MemberLine := do
  let (visibility, s) := mark (trimStart s)
  let s := trimStart s
  let (name, s) ← word s
  if !isIdentifier name then none
  let s ← afterParameters (trimStart s)
  match s with
  | [] => some ⟨String.ofList visibility, String.ofList name, none⟩
  | ':' :: s =>
    let type ← typeText s
    some ⟨String.ofList visibility, String.ofList name, some (String.ofList type)⟩
  | _ => none

/-- Reads a member line. -/
def parse? (line : String) : Option MemberLine := ofChars? line.toList

end MemberLine

end ClassAtlas
