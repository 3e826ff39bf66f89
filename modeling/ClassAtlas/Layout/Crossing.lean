import ClassAtlas.Layout.Grid

/-!
# Fewer crossings

The cells of a layer are ordered anew so that the lines to a neighbouring layer cross less: sorted
by the mean place of the cells they lead to, and then, once from left to right, neighbours are
exchanged where this helps. Layers are visited downwards, upwards if there were crossings left, and
downwards once more. A layer without crossings stays as it is.
-/

namespace ClassAtlas.Grid

/-- How often an earlier number is greater than a later one. -/
def inversions : List Nat → Nat
  | [] => 0
  | p :: ps => ps.countP (decide <| · < p) + inversions ps

/-- Places between zero and one, in steps of equal width, of the cells of a layer. -/
def spread (layer : List Nat) (cell : Nat) : Float :=
  let step := if layer.length > 1 then 1.0 / Float.ofNat (layer.length - 1) else 1.0
  Float.ofNat (layer.idxOf cell) * step

/-- The mean place of the cells that lines lead to, or the own place of a cell without lines. -/
def meanPlace (near : Nat → List Nat) (fixed layer : List Nat) (cell : Nat) : Float :=
  match near cell with
  | [] => spread layer cell
  | cells => (cells.map (spread fixed)).foldl (· + ·) 0.0 / Float.ofNat cells.length

/-- How many pairs of lines cross where one cell stands directly before another, and the number of
the other pairs. -/
def crossings (near : Nat → List Nat) (fixed : List Nat) (a b : Nat) : Nat × Nat :=
  let left := (near a).map fixed.idxOf
  let right := (near b).map fixed.idxOf
  let crossed := (right.map fun r => left.countP (decide <| r < ·)).foldr (· + ·) 0
  (crossed, left.length * right.length - crossed)

/-- Goes once through a layer, given its first cell and the others, and exchanges neighbours where
fewer lines cross then. Gives the number of crossings between neighbours that are left. -/
def exchange (near : Nat → List Nat) (fixed : List Nat) : Nat → List Nat → List Nat × Nat
  | a, [] => ([a], 0)
  | a, b :: rest =>
    let (kept, swapped) := crossings near fixed a b
    if swapped < kept then
      let (layer, n) := exchange near fixed a rest
      (b :: layer, n + swapped)
    else
      let (layer, n) := exchange near fixed b rest
      (a :: layer, n + kept)

/-- A layer ordered by the layer next to it, which stays fixed, and the crossings that are left. -/
def arrange (near : Nat → List Nat) (fixed layer : List Nat) : List Nat × Nat :=
  if inversions (layer.flatMap fun c => ((near c).map fixed.idxOf).mergeSort (· ≤ ·)) = 0 then
    (layer, 0)
  else
    let keyed := layer.map fun c => (meanPlace near fixed layer c, c)
    match (keyed.mergeSort fun a b => a.1 ≤ b.1).map (·.2) with
    | [] => ([], 0)
    | a :: rest => exchange near fixed a rest

/-- Orders layers one after the other, each by the one before it. -/
def sweep (near : Nat → List Nat) : List Nat → List (List Nat) → List (List Nat) × Nat
  | _, [] => ([], 0)
  | fixed, layer :: layers =>
    let (layer, n) := arrange near fixed layer
    let (layers, m) := sweep near layer layers
    (layer :: layers, n + m)

/-- The grid with its layers ordered anew. -/
def uncross (grid : Grid) : Grid :=
  let down := sweep grid.upNeighbors []
  let up := fun layers => (sweep grid.downNeighbors [] (List.reverse layers)).1.reverse
  let (layers, left) := down grid.layers
  let layers := if left = 0 then layers else up layers
  { grid with layers := (down layers).1 }

end ClassAtlas.Grid
