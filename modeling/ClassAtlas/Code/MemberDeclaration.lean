import ClassAtlas.Code.Block
import ClassAtlas.Diagram.Basic
import ClassAtlas.Diagram.Member

/-!
# Member declarations

A member is declared by its access, modifiers, its type and its name; accessors in braces make it a
property, and a parameter list makes it a method. Fields, constructors and all other text are
passed over.

The second word of a compound access and the modifiers are skipped as far as what follows can still
be read as a type and a name. So where a modifier stands directly before the name, as in
`public static new Foo()`, it is read as the type.
-/

namespace ClassAtlas.Code

open Text

/-! ## Types -/

/-- A list of type arguments, in which angle brackets may nest once, and the text after it. The flag
says whether an inner list is open. -/
def typeArguments : Bool → List Char → Option (List Char × List Char)
  | _, [] => none
  | inner, c :: s =>
    if c = '>' ∧ inner = false then some ([c], s)
    else if c = '<' ∧ inner = true ∨ c ∈ ['(', ')', '{', '}', ';'] then none
    else
      let inner := if c = '<' then true else if c = '>' then false else inner
      (typeArguments inner s).map fun (args, rest) => (c :: args, rest)

/-- The type arguments that a text begins with, if any. -/
def optionalArguments (s : List Char) : List Char × List Char :=
  match s with
  | '<' :: r => ((typeArguments false r).map fun (args, rest) => ('<' :: args, rest)).getD ([], s)
  | _ => ([], s)

/-- Any number of pairs of square brackets, and the text after them. -/
def arrayMarks : List Char → List Char × List Char
  | '[' :: ']' :: s =>
    let (marks, rest) := arrayMarks s
    ('[' :: ']' :: marks, rest)
  | s => ([], s)

/-- The question mark of a type that may be missing, and the text after it. -/
def optionalMark : List Char → List Char × List Char
  | '?' :: s => (['?'], s)
  | s => ([], s)

/-- A type: a dotted path, type arguments, square brackets and a question mark. -/
def typeName (s : List Char) : Option (List Char × List Char) := do
  let (path, s) ← run (fun c => isWord c || c == '.') s
  let (args, s) := optionalArguments s
  let (marks, s) := arrayMarks s
  let (mark, s) := optionalMark s
  some (path ++ args ++ marks ++ mark, s)

/-! ## Members -/

/-- The declaration of a member. -/
structure MemberDeclaration where
  access : String
  type : String
  name : String
deriving Repr, DecidableEq

/-- The line that shows a member in a diagram. -/
def MemberDeclaration.line (m : MemberDeclaration) : String :=
  memberLine (visibilityMark m.access) m.name m.type

/-- The places after an access word at which the type may begin, in the order in which they are
tried: after a second access word before the first one, after many modifiers before few. -/
def typePlaces (s : List Char) : List (List Char) :=
  let places := fun s => match gap s with
    | some s => reach (skipWord memberModifiers) s.length s
    | none => []
  (match (gap s).bind (oneOf secondAccessWords) with
    | some (_, s) => places s
    | none => []) ++ places s

/-- A type, blanks and a name, if what follows the name is as required. -/
def typeAndName (tail : List Char → Option (List Char)) (s : List Char) :
    Option ((List Char × List Char) × List Char) := do
  let (type, s) ← typeName s
  let s ← gap s
  let (name, s) ← word s
  let s ← tail (trimStart s)
  some ((type, name), s)

/-- A member whose name is followed as required. -/
def member (tail : List Char → Option (List Char)) : Pattern MemberDeclaration := fun _ s => do
  let (access, s) ← oneOf accessWords s
  let ((type, name), s) ← (typePlaces s).findSome? (typeAndName tail)
  some (⟨String.ofList access, String.ofList type, String.ofList name⟩, s)

/-- An opening brace and a first accessor. -/
def accessors (s : List Char) : Option (List Char) := do
  let s ← literal ['{'] s
  let (_, s) ← oneOf accessorWords (trimStart s)
  literal [';'] (trimStart s)

/-- A parameter list. -/
def parameters (s : List Char) : Option (List Char) := do
  let s ← literal ['('] s
  literal [')'] (s.dropWhile (· ≠ ')'))

/-- The members declared in the body of a block, without those of nested types. -/
def declaredMembers (body : List Char) : Members :=
  let own := withoutNested body
  { attributes := (occurrences (member accessors) own).map (·.line)
    methods := (occurrences (member parameters) own).map (·.line) }

end ClassAtlas.Code
