import ClassAtlas.Text.Ranges

/-!
# Blanks

The characters that separate words and that are trimmed from both ends of a statement: the white
space of the character database and the four information separators. A zero-width space is no
blank.
-/

namespace ClassAtlas.Text

/-- The code points of the blanks. -/
def blankRanges : Ranges :=
  [(0x09, 0x0D), (0x1C, 0x20), (0x85, 0x85), (0xA0, 0xA0), (0x1680, 0x1680), (0x2000, 0x200A),
    (0x2028, 0x2029), (0x202F, 0x202F), (0x205F, 0x205F), (0x3000, 0x3000)]

/-- Whether a character is a blank. -/
def isBlank (c : Char) : Bool := blankRanges.holds c.toNat

/-- The text from its first character that is no blank. -/
def trimStart (s : List Char) : List Char := s.dropWhile isBlank

/-- The text up to its last character that is no blank. -/
def trimEnd (s : List Char) : List Char := (s.reverse.dropWhile isBlank).reverse

/-- The text without the blanks at its two ends. -/
def trim (s : List Char) : List Char := trimEnd (trimStart s)

end ClassAtlas.Text
