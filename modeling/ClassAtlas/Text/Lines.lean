/-!
# Lines

A written text is a list of lines, each of which ends with a line break.
-/

namespace ClassAtlas.Text

/-- The text of some lines. -/
def unlines : List String → String
  | [] => ""
  | line :: lines => line ++ "\n" ++ unlines lines

end ClassAtlas.Text
