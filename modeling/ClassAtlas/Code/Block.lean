import ClassAtlas.Code.Keyword

/-!
# Blocks

The body of a type is the text between its opening brace and the brace that closes it, or to the end
of the text where none does. A declaration's header ends at its opening brace; it may span lines but
runs into no other brace, semicolon or declaration.

`bodies` finds every block declared under a name, however deep it is nested, and `withoutNested`
takes the types nested in a body out of it, so that a member is read for the type it belongs to.
-/

namespace ClassAtlas.Code

open Text

/-- Splits the text after an opening brace at the brace that closes it. The number counts the inner
blocks that are open. -/
def splitClose : Nat → List Char → List Char × List Char
  | _, [] => ([], [])
  | depth, c :: s =>
    if c = '}' ∧ depth = 0 then ([], c :: s)
    else
      let depth := if c = '{' then depth + 1 else if c = '}' then depth - 1 else depth
      let (body, rest) := splitClose depth s
      (c :: body, rest)

/-! ## Headers -/

/-- Whether a declaration begins at a place: one of the words, blanks, and a name. -/
def declares (words : List (List Char)) (before : Option Char) (s : List Char) : Bool :=
  isBoundary before s.head? &&
    (((oneOf words s).bind fun (_, s) => gap s).bind List.head?).any isWord

/-- The text after the brace that ends a header, if no other declaration by one of the words comes
before it. -/
def afterHeader (words : List (List Char)) : Option Char → List Char → Option (List Char)
  | _, [] => none
  | before, c :: s =>
    if declares words before (c :: s) then none
    else if c = '{' then some s
    else if c = '}' ∨ c = ';' then none
    else afterHeader words (some c) s

/-- The text after blanks and a given name. A name that begins with blanks itself takes them from
the end of the blanks before it. -/
def gapAndName (name s : List Char) : Option (List Char) :=
  let blanks := s.takeWhile isBlank
  let own := name.takeWhile isBlank
  if own.length < blanks.length then literal name (s.drop (blanks.length - own.length)) else none

/-- The body of a class or interface of a given name. The search goes on inside it. -/
def block (name : List Char) : Pattern (List Char) := fun before s => do
  guard (isBoundary before s.head?)
  let (_, s) ← oneOf typeWords s
  let s ← gapAndName name s
  let last := some (name.getLastD ' ')
  guard (isBoundary last s.head?)
  let s ← afterHeader typeWords last s
  some ((splitClose 0 s).1, s)

/-- The bodies of the classes and interfaces of a given name. -/
def bodies (name : String) (text : List Char) : List (List Char) :=
  occurrences (block name.toList) text

/-! ## Nested types -/

/-- The text after one of the words and blanks. -/
def skipWord (words : List (List Char)) (s : List Char) : Option (List Char) :=
  (oneOf words s).bind fun (_, s) => gap s

/-- A nested type from its first modifier to its closing brace. -/
def nestedType : Pattern Unit := fun before s => do
  guard (isBoundary before s.head?)
  let s ← (reach (skipWord typeModifiers) s.length s).findSome? (skipWord nestedTypeWords)
  let (name, s) ← word s
  let s ← afterHeader nestedTypeWords name.getLast? s
  some ((), (splitClose 0 s).2.drop 1)

/-- A body without the types nested in it. -/
def withoutNested (body : List Char) : List Char := erase nestedType body

end ClassAtlas.Code
