import ClassAtlas.Layout.Column
import ClassAtlas.Layout.InsertionSort

/-!
# Horizontal places

The columns of a course are pushed together as far as the distances between neighbouring cells
allow. Columns that depend on each other form a group, which is named by the column it leans
against; groups are shifted as wholes. The place of a cell in the drawing is the mean of the two
middle ones of its places in all four courses.
-/

namespace ClassAtlas

/-- The columns placed so far. Columns are numbered in their order. -/
structure Packing where
  /-- The place of a column, if it has one. -/
  place : Array (Option Float)
  /-- The column that names the group of a column. -/
  group : Array Nat
  /-- How far a group can be shifted against the ones before it. -/
  shift : Array Float

/-- What is larger than every place. -/
def unlimited : Float := 1.0 / 0.0

namespace Packing

/-- The packing before any of a number of columns is placed. -/
def start (count : Nat) : Packing :=
  { place := Array.replicate count none
    group := Array.range count
    shift := Array.replicate count unlimited }

/-- Keeps a column at a distance from another one before it. Columns of one group are moved apart;
for two groups the distance limits the shift of the other one's. -/
def keepApart (p : Packing) (column other : Nat) (distance : Float) : Packing :=
  let otherGroup := p.group.getD other other
  let group := if p.group.getD column column = column then
    p.group.setIfInBounds column otherGroup else p.group
  let x := (p.place.getD column none).getD 0.0
  let least := (p.place.getD other none).getD 0.0 + distance
  if group.getD column column ≠ otherGroup then
    let old := p.shift.getD otherGroup unlimited
    let new := x - least
    { p with group, shift := p.shift.setIfInBounds otherGroup (if new < old then new else old) }
  else
    { p with group, place := p.place.setIfInBounds column (some (if x < least then least else x)) }

/-- Places a column after the columns next to its cells. Each round places a further column, so the
number of columns bounds the rounds. -/
def add (columns : Array (List Nat)) (columnOf : Nat → Nat) (previous : Nat → Option Nat)
    (distance : Nat → Nat → Float) : Nat → Packing → Nat → Packing
  | 0, p, _ => p
  | n + 1, p, column =>
    if (p.place.getD column none).isSome then p
    else
      (columns.getD column []).foldl
        (fun p cell =>
          match previous cell with
          | none => p
          | some c =>
            let other := columnOf c
            (add columns columnOf previous distance n p other).keepApart column other
              (distance c cell))
        { p with place := p.place.setIfInBounds column (some 0.0) }

/-- The place of the cells of a column. In a course from the right places count to the left. -/
def placeOf (p : Packing) (course : Course) (column : Nat) : Float :=
  let x := (p.place.getD column none).getD 0.0
  let x := if course.fromRight && x != 0.0 then -x else x
  let s := p.shift.getD (p.group.getD column column) unlimited
  if s < unlimited then x + (if course.fromRight then -s else s) else x

end Packing

namespace Grid

/-- The places of all cells in a course, in the order of their numbers. -/
def placesIn (grid : Grid) (gap : Float) (width : Nat → Float) (course : Course) : Array Float :=
  let columns := (grid.columns course).toArray
  let layers := grid.layersAlong course
  let count := grid.above.size
  let columnOf := (List.range count).map (fun c => columns.findIdx (c ∈ ·)) |>.toArray
  let previous := layers.foldl
    (fun previous layer => (layer.zip layer.tail).foldl
      (fun previous (a, b) => previous.setIfInBounds b (some a)) previous)
    (Array.replicate count none)
  let packing := (List.range columns.size).foldl
    (Packing.add columns (columnOf.getD · 0) (previous.getD · none)
      (fun a b => gap + (width a + width b) / 2.0) columns.size)
    (Packing.start columns.size)
  ((List.range count).map fun c => packing.placeOf course (columnOf.getD c 0)).toArray

/-- The four courses through a grid. -/
def courses : List Course := [⟨false, false⟩, ⟨false, true⟩, ⟨true, false⟩, ⟨true, true⟩]

/-- The horizontal place of a cell, from its places in the four courses. -/
def meanOfMiddle (places : List Float) : Float :=
  match insertionSort (decide <| · < ·) places with
  | [_, b, c, _] => (b + c) / 2.0
  | _ => 0.0

/-- The horizontal places of all cells. -/
def abscissas (grid : Grid) (gap : Float) (width : Nat → Float) : Array Float :=
  let all := courses.map (grid.placesIn gap width)
  ((List.range grid.above.size).map fun c => meanOfMiddle (all.map (·.getD c 0.0))).toArray

/-! ## The middle -/

/-- **There are two places in the middle.** Nothing is lost when four places are sorted, so the mean
is of two of them. -/
theorem exists_meanOfMiddle {places : List Float} (h : places.length = 4) :
    ∃ b ∈ places, ∃ c ∈ places, meanOfMiddle places = (b + c) / 2.0 := by
  have hperm := insertionSort_perm (decide <| · < ·) places
  have hfour := hperm.length_eq.trans h
  unfold meanOfMiddle
  match hsorted : insertionSort (decide <| · < ·) places, hfour with
  | [a, b, c, d], _ =>
    rw [hsorted] at hperm
    exact ⟨b, hperm.mem_iff.mp (by simp), c, hperm.mem_iff.mp (by simp), rfl⟩

/-- The horizontal place of a cell is the mean of its places in two of the courses. -/
theorem exists_abscissa (grid : Grid) (gap : Float) (width : Nat → Float) {c : Nat}
    (hc : c < grid.above.size) :
    ∃ course ∈ courses, ∃ other ∈ courses,
      (grid.abscissas gap width)[c]? = some (((grid.placesIn gap width course).getD c 0.0 +
        (grid.placesIn gap width other).getD c 0.0) / 2.0) := by
  have hfour : ((courses.map (grid.placesIn gap width)).map (·.getD c 0.0)).length = 4 := rfl
  obtain ⟨x, hx, y, hy, hmean⟩ := exists_meanOfMiddle hfour
  rw [List.map_map] at hx hy
  obtain ⟨course, hcourse, rfl⟩ := List.mem_map.mp hx
  obtain ⟨other, hother, rfl⟩ := List.mem_map.mp hy
  refine ⟨course, hcourse, other, hother, ?_⟩
  unfold abscissas
  simp only [List.getElem?_toArray, List.getElem?_map, List.getElem?_range hc, Option.map_some]
  exact congrArg some hmean

end Grid

end ClassAtlas
