import ClassAtlas.Diagram.Relation
import ClassAtlas.Text.Scan

/-!
# Statements of the markup

The markup of class diagrams is a list of statements, separated by line breaks and semicolons. Two
percent signs begin a comment. A relation is stated by two names with a symbol between them, such as
`Dog --|> Animal : is a`; the symbol says of which kind it is, and the label after the colon may be
missing.
-/

namespace ClassAtlas.Markup

open Text

/-- Whether a statement is a comment. -/
def isComment : List Char → Bool
  | '%' :: '%' :: _ => true
  | _ => false

/-- The statements of a text, without the blanks around them, comments and empty ones left out. -/
def statements (text : String) : List (List Char) :=
  ((text.toList.splitOnP fun c => c = '\n' || c = ';').map trim).filter fun s =>
    s ≠ [] && !isComment s

/-! ## Symbols -/

/-- The kind of relation that a symbol stands for. A symbol without a kind of its own stands for an
association. -/
def symbolKind (symbol : String) : ArrowKind :=
  if symbol = "--|>" then .inheritance
  else if symbol = "..|>" then .implementation
  else if symbol = "..>" then .dependency
  else .association

/-- The symbol that is written for a kind of relation. -/
def kindSymbol : ArrowKind → String
  | .inheritance => "--|>"
  | .implementation => "..|>"
  | .dependency => "..>"
  | .association => "-->"
  | .other _ => "-->"

/-- Whether a character draws the line of a symbol. -/
def isStroke (c : Char) : Bool := c ∈ ['-', '.', '<', '>', '|', '*']

/-- The small circle that may stand at either end of a symbol, and the text after it. -/
def circle : List Char → List Char × List Char
  | 'o' :: s => (['o'], s)
  | s => ([], s)

/-- A symbol: strokes, with or without a circle at either end. -/
def symbol (s : List Char) : Option (List Char × List Char) := do
  let (first, s) := circle s
  let (strokes, s) ← run isStroke s
  let (last, s) := circle s
  some (first ++ strokes ++ last, s)

/-! ## Relations -/

/-- A statement that relates two names. -/
structure RelationStatement where
  source : String
  symbol : String
  target : String
  label : Option String
deriving Repr, DecidableEq

/-- The relation that a statement expresses. -/
def RelationStatement.relation (r : RelationStatement) : Relation :=
  ⟨r.source, r.target, symbolKind r.symbol⟩

/-- The label in the text after the second name, which is empty or begins with a colon. A label of
blanks is no label. -/
def label (s : List Char) : Option (Option String) :=
  match s with
  | [] => some none
  | _ => do
    let s ← literal [':'] (trimStart s)
    match trim s with
    | [] => some none
    | text => some (some (String.ofList text))

/-- Reads a relation statement. -/
def RelationStatement.ofChars? (s : List Char) : Option RelationStatement := do
  let (source, s) ← word s
  let s ← gap s
  let (symbol, s) ← Markup.symbol s
  let s ← gap s
  let (target, s) ← word s
  let label ← Markup.label s
  some ⟨String.ofList source, String.ofList symbol, String.ofList target, label⟩

/-- The relation statements of a text, in order. -/
def relationStatements (text : String) : List RelationStatement :=
  (statements text).filterMap RelationStatement.ofChars?

end ClassAtlas.Markup
