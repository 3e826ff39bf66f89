import ClassAtlas.Code.Reader
import ClassAtlas.Code.Writer
import ClassAtlas.Markup.Reader
import ClassAtlas.Markup.Writer

/-!
# Dialects

The two written forms of a diagram, and how the form of a text is guessed. A text whose first line
begins with the header of the markup is markup. Otherwise a text that looks like class declarations
anywhere is read as such, and any other text as markup.
-/

namespace ClassAtlas

open Text

/-- A written form of class diagrams. -/
inductive Dialect where
  | markup
  | code
deriving Repr, DecidableEq

namespace Dialect

/-- The name of a dialect. -/
def name : Dialect → String
  | .markup => "mermaid"
  | .code => "csharp"

/-- Puts the diagram of a text together. -/
def assemble : Dialect → ReadSettings → Supply → String → Assembly
  | .markup => Markup.assemble
  | .code => Code.assemble

/-- Reads a diagram from a text. -/
def read : Dialect → Engine Float → ReadSettings → Supply → String → Except Failure Assembly
  | .markup => Markup.read
  | .code => Code.read

/-- Writes a diagram. -/
def write {K : Type} : Dialect → Diagram K → String
  | .markup => Markup.write
  | .code => Code.write

/-! ## Detection -/

/-- Whether a text begins with the header of the markup. -/
def hasHeader (s : List Char) : Bool :=
  let line := trim ((trim s).takeWhile (· ≠ '\n'))
  ((literal "classDiagram".toList line).map fun rest => !rest.head?.any isWord).getD false

/-- An access word, then words up to one that declares a type. -/
def accessHint (s : List Char) : Bool :=
  match (oneOf Code.accessWords s).bind fun (_, s) => gap s with
  | some s => ((s.takeWhile fun c => isWord c || isBlank c).splitOnP isBlank).any
      (· ∈ Code.typeWords)
  | none => false

/-- A keyword, blanks, and a character of a kind. -/
def keywordHint (keyword : String) (p : Char → Bool) (s : List Char) : Bool :=
  ((((literal keyword.toList s).bind gap).bind List.head?).map p).getD false

/-- A class with the first name of a base list. -/
def baseHint (s : List Char) : Bool :=
  (do
    let s ← literal "class".toList s
    let s ← gap s
    let (_, s) ← word s
    let s ← literal [':'] (trimStart s)
    word (trimStart s)).isSome

/-- A place at which a text looks like class declarations. -/
def codeHint : Pattern Unit := fun before s =>
  if isBoundary before s.head? &&
      (accessHint s || keywordHint "interface" isWord s ||
        keywordHint "namespace" (fun c => isWord c || c == '.') s || baseHint s) then
    some ((), [])
  else none

/-- The dialect that a text seems to be written in. -/
def guess (text : String) : Dialect :=
  if hasHeader text.toList then .markup
  else if occurs codeHint none text.toList then .code
  else .markup

end Dialect

end ClassAtlas
