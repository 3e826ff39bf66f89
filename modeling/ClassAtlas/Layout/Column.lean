import ClassAtlas.Layout.Grid

/-!
# Columns

A column is a set of cells, at most one in each layer, that are to stand exactly above each other.
Going through the layers from one side, a cell joins the column of the middle one of the cells it
leads to, as long as columns do not cross each other. A line between two bends has precedence: the
lines it crosses join no columns.
-/

namespace ClassAtlas

/-- The two ways to go through layers, and to go through one layer. -/
structure Course where
  fromBelow : Bool
  fromRight : Bool

namespace Grid

/-! ## Precedence of lines between bends -/

/-- Goes through a layer and collects the lines, each as the upper and the lower cell, that cross a
line between two bends. `low` is the place of the bend passed last in the upper layer, and
`waiting` are the cells since then. -/
def crossedIn (grid : Grid) (upper : List Nat) : Nat → List Nat → List Nat → List (Nat × Nat)
  | _, _, [] => []
  | low, waiting, cell :: rest =>
    let waiting := waiting ++ [cell]
    let bendOver := (grid.upNeighbors cell).head?.filter grid.isBend
    if grid.isBend cell && (rest.isEmpty || bendOver.isSome) then
      let high := (bendOver.map upper.idxOf).getD (upper.length - 1)
      let outside := fun c => upper.idxOf c < low || upper.idxOf c > high
      waiting.flatMap (fun l => ((grid.upNeighbors l).filter outside).map (·, l)) ++
        grid.crossedIn upper high [] rest
    else grid.crossedIn upper low waiting rest

/-- The lines that cross a line between two bends. -/
def crossedLines (grid : Grid) : List (Nat × Nat) :=
  (grid.layers.zip grid.layers.tail).flatMap fun (upper, layer) =>
    grid.crossedIn upper 0 [] layer

/-! ## Columns of a course -/

/-- The layers in the order of a course. -/
def layersAlong (grid : Grid) (course : Course) : List (List Nat) :=
  let layers := if course.fromBelow then grid.layers.reverse else grid.layers
  if course.fromRight then layers.map List.reverse else layers

/-- The cells that lines lead to in the layer that a course visits before. -/
def before (grid : Grid) (course : Course) (cell : Nat) : List Nat :=
  if course.fromBelow then grid.downNeighbors cell else grid.upNeighbors cell

/-- The one or two in the middle of some sorted places. -/
def middle (places : List Nat) : List Nat :=
  (places.drop ((places.length - 1) / 2)).take (2 - places.length % 2)

/-- Lets the cells of a layer join the columns, which are given by their cells so far. `last` is the
place in the previous layer of the column joined last. A cell that joins none begins its own. -/
def joinColumns (near : Nat → List Nat) (blocked : Nat → Nat → Bool) (previous : List Nat) :
    Option Nat → List Nat → List (List Nat) → List (List Nat)
  | _, [], columns => columns
  | last, cell :: rest, columns =>
    let places := middle (((near cell).map previous.idxOf).mergeSort (· ≤ ·))
    let free := fun m => last.all (decide <| · < m) && !blocked cell (previous.getD m 0)
    match places.find? free with
    | some m =>
      let joined := columns.map fun column =>
        if previous.getD m 0 ∈ column then column ++ [cell] else column
      joinColumns near blocked previous (some m) rest joined
    | none => joinColumns near blocked previous last rest (columns ++ [[cell]])

/-- The columns that arise from layers, each after the one before it. -/
def columnsFrom (near : Nat → List Nat) (blocked : Nat → Nat → Bool) :
    List Nat → List (List Nat) → List (List Nat) → List (List Nat)
  | _, [], columns => columns
  | previous, layer :: layers, columns =>
    columnsFrom near blocked layer layers (joinColumns near blocked previous none layer columns)

/-- The columns of a course through the grid, in the order of their first cells. -/
def columns (grid : Grid) (course : Course) : List (List Nat) :=
  let crossed := grid.crossedLines
  let blocked := fun a b => crossed.contains (a, b) || crossed.contains (b, a)
  columnsFrom (grid.before course) blocked [] (grid.layersAlong course) []

end Grid

end ClassAtlas
