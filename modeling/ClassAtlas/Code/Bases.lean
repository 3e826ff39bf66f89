import ClassAtlas.Diagram.Relation
import ClassAtlas.Text.Scan

/-!
# Base lists

The names after the colon of a class declaration say which class it extends and which interfaces it
implements. A base is an interface if its name begins with an `I` and another capital, or if it is
declared as one; the first base of a list that is no interface is the parent class.
-/

namespace ClassAtlas.Code

open Text

/-- The names after the colon of one class declaration. -/
structure Ancestry where
  name : String
  bases : List String
deriving Repr, DecidableEq

/-- Whether a name is that of an interface by convention: `IPet`, but not `Item`. -/
def isInterfaceName (name : String) : Bool :=
  match name.toList with
  | 'I' :: c :: _ => c.isUpper
  | _ => false

/-! ## Splitting a list into names -/

/-- The word `where`, which begins the constraints on type parameters. -/
def whereWord : Pattern Unit := fun before s => do
  guard (isBoundary before s.head?)
  let s ← literal "where".toList s
  guard (!s.head?.any isWord)
  some ((), s)

/-- The parts of a list between commas outside angle brackets. The number counts the brackets that
are open. -/
def splitTop : Nat → List Char → List (List Char)
  | _, [] => [[]]
  | depth, c :: s =>
    if c = ',' ∧ depth = 0 then [] :: splitTop 0 s
    else
      let depth := if c = '<' then depth + 1 else if c = '>' then depth - 1 else depth
      (splitTop depth s).modifyHead (c :: ·)

/-- The last name of a dotted path. -/
def lastName (path : List Char) : List Char := (path.reverse.takeWhile (· ≠ '.')).reverse

/-- The bare name of a base: no type arguments and no qualifiers. -/
def baseName? (part : List Char) : Option String :=
  let name := lastName (trim (part.takeWhile (· ≠ '<')))
  if isIdentifier name then some (String.ofList name) else none

/-- The names in the text of a base list. -/
def baseNames (text : List Char) : List String :=
  (splitTop 0 (untilFirst whereWord none text)).filterMap baseName?

/-! ## Finding the lists -/

/-- The text after type parameters, if it begins with them. -/
def afterTypeParameters (s : List Char) : List Char :=
  match s with
  | '<' :: r =>
    match r.dropWhile (· ∉ ['<', '>', '{', '}', ';']) with
    | '>' :: r => r
    | _ => s
  | _ => s

/-- The text of a base list: up to a brace, a semicolon or the end of the line. Where only blanks
follow the colon the list is empty, and where only ends of lines do there is none. -/
def baseText (s : List Char) : Option (List Char × List Char) :=
  match run (· ∉ ['{', '}', ';', '\n']) (trimStart s) with
  | some found => some found
  | none => if (s.takeWhile isBlank).all (· = '\n') then none else some ([], trimStart s)

/-- A class declaration with a base list. -/
def ancestry : Pattern Ancestry := fun before s => do
  guard (isBoundary before s.head?)
  let s ← literal "class".toList s
  let s ← gap s
  let (name, s) ← word s
  let s ← literal [':'] (trimStart (afterTypeParameters (trimStart s)))
  let (text, s) ← baseText s
  some (⟨String.ofList name, baseNames text⟩, s)

/-- The base lists of a text, in order. -/
def ancestries (text : String) : List Ancestry := occurrences ancestry text.toList

/-! ## What they say -/

/-- The relations of a class to its bases, given the names declared as interfaces. A base that is
neither an interface nor the first of its list says nothing. -/
def Ancestry.relations (interfaces : List String) (list : Ancestry) : List Relation :=
  list.bases.zipIdx.filterMap fun (base, i) =>
    if base ∈ interfaces ∨ isInterfaceName base then some ⟨list.name, base, .implementation⟩
    else if i = 0 then some ⟨list.name, base, .inheritance⟩
    else none

/-- The relations that the base lists of a text declare. -/
def relations (interfaces : List String) (text : String) : List Relation :=
  (ancestries text).flatMap (·.relations interfaces)

end ClassAtlas.Code
