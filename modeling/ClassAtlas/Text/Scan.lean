import ClassAtlas.Text.Blank
import ClassAtlas.Text.Word

/-!
# Scanning

How things are found in a text that is not parsed as a whole.

A *recogniser* reads at one place: it takes the text from there on and gives back what it read and
the text that follows, or `none` where the thing does not begin. Runs of characters are read as far
as they go; this loses nothing as long as what has to follow cannot begin inside the run, and every
recogniser of this library is of that kind.

A *pattern* is a recogniser that also sees the character before its place. `pieces` cuts a text
into the occurrences of a pattern and the characters between them: the leftmost occurrence first,
and the search goes on where that one ends, so occurrences do not overlap.
-/

namespace ClassAtlas.Text

/-! ## Recognisers -/

/-- The text after a given beginning. -/
def literal : List Char → List Char → Option (List Char)
  | [], s => some s
  | w :: ws, c :: s => if w = c then literal ws s else none
  | _ :: _, [] => none

/-- The first of the given words that the text begins with, and the text after it. -/
def oneOf (words : List (List Char)) (s : List Char) : Option (List Char × List Char) :=
  words.findSome? fun w => (literal w s).map (w, ·)

/-- A run of at least one character of a kind. -/
def run (p : Char → Bool) (s : List Char) : Option (List Char × List Char) :=
  match s.takeWhile p with
  | [] => none
  | cs => some (cs, s.dropWhile p)

/-- The text after at least one blank. -/
def gap (s : List Char) : Option (List Char) := (run isBlank s).map (·.2)

/-- A whole word, or what is left of one. -/
def word (s : List Char) : Option (List Char × List Char) := run isWord s

/-- The places reached by taking a step again and again, the farthest first. The first argument
bounds the number of steps; the length of the text is enough for steps that read something. -/
def reach (step : List Char → Option (List Char)) : Nat → List Char → List (List Char)
  | 0, s => [s]
  | n + 1, s =>
    match step s with
    | some r => reach step n r ++ [s]
    | none => [s]

/-! ## Patterns -/

/-- A recogniser that also sees the character before its place, `none` at the start of the text. -/
abbrev Pattern (α : Type) := Option Char → List Char → Option (α × List Char)

/-- A part of a text: a character between occurrences, or an occurrence with its value. -/
inductive Piece (α : Type) where
  | plain (c : Char)
  | found (value : α)

variable {α : Type}

/-- The value of an occurrence. -/
def Piece.value? : Piece α → Option α
  | .plain _ => none
  | .found a => some a

/-- The character of a piece between occurrences. -/
def Piece.char? : Piece α → Option Char
  | .plain c => some c
  | .found _ => none

/-- Cuts a text into occurrences and the characters between them. The number counts the characters
still covered by the occurrence found last. -/
def pieces (p : Pattern α) : Option Char → Nat → List Char → List (Piece α)
  | _, _, [] => []
  | _, covered + 1, c :: s => pieces p (some c) covered s
  | before, 0, c :: s =>
    match p before (c :: s) with
    | some (a, rest) => .found a :: pieces p (some c) (s.length - rest.length) s
    | none => .plain c :: pieces p (some c) 0 s

/-- The values of the occurrences, from left to right. -/
def occurrences (p : Pattern α) (s : List Char) : List α :=
  (pieces p none 0 s).filterMap Piece.value?

/-- The text without the occurrences. -/
def erase (p : Pattern α) (s : List Char) : List Char :=
  (pieces p none 0 s).filterMap Piece.char?

/-- The text before the first occurrence, all of it where there is none. -/
def untilFirst (p : Pattern α) : Option Char → List Char → List Char
  | _, [] => []
  | before, c :: s => if (p before (c :: s)).isSome then [] else c :: untilFirst p (some c) s

/-- Whether a pattern occurs anywhere in a text. -/
def occurs (p : Pattern α) : Option Char → List Char → Bool
  | _, [] => false
  | before, c :: s => (p before (c :: s)).isSome || occurs p (some c) s

end ClassAtlas.Text
