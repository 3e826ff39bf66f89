import ClassAtlas.Geometry.Basic

/-!
# Routes between boxes

A relation is drawn as a line of vertical and horizontal pieces between the centers of two boxes,
first vertical, then horizontal, and is then cut off where it leaves the one box and enters the
other. Which side it leaves or enters by is decided by the longer of the two distances to the
neighbouring point of the line; where both are equal the line counts as vertical.
-/

namespace ClassAtlas

variable {K : Type} [Add K] [Sub K] [Neg K] [LT K] [DecidableLT K] [OfNat K 0]

/-- A number without its sign. -/
def magnitude (a : K) : K := if a < 0 then -a else a

/-- The line between two centers. It is straight where the centers lie less than one unit apart on
one axis, and otherwise has one corner, straight above or below the start. -/
def route [OfNat K 1] (start finish : Point K) : List (Point K) :=
  if magnitude (finish.x - start.x) < 1 ∨ magnitude (finish.y - start.y) < 1 then [start, finish]
  else [start, ⟨start.x, finish.y⟩, finish]

variable [LE K] [DecidableLE K]

/-- Whether a piece of a line counts as vertical. -/
def IsSteep (p q : Point K) : Prop := magnitude (q.x - p.x) ≤ magnitude (q.y - p.y)

instance (p q : Point K) : Decidable (IsSteep p q) :=
  inferInstanceAs (Decidable (_ ≤ _))

/-- Where a line that runs from `previous` to `tip` meets the side of the box it comes to. -/
def Box.entry (box : Box K) (previous tip : Point K) : Point K :=
  if IsSteep previous tip then
    ⟨tip.x, if previous.y < tip.y then box.center.y - box.halfHeight
      else box.center.y + box.halfHeight⟩
  else
    ⟨if previous.x < tip.x then box.center.x - box.halfWidth else box.center.x + box.halfWidth,
      tip.y⟩

/-- Where a line that runs from `tip` to `next` leaves the box it starts in. -/
def Box.exit (box : Box K) (tip next : Point K) : Point K :=
  if IsSteep tip next then
    ⟨tip.x, if tip.y < next.y then box.center.y + box.halfHeight
      else box.center.y - box.halfHeight⟩
  else
    ⟨if tip.x < next.x then box.center.x + box.halfWidth else box.center.x - box.halfWidth, tip.y⟩

/-- The line with its last point moved to the side of the box that it enters. -/
def clipLast (target : Option (Box K)) : List (Point K) → List (Point K)
  | [p, q] => [p, (target.map fun box => box.entry p q).getD q]
  | p :: line => p :: clipLast target line
  | [] => []

/-- The line with its two ends moved to the sides of the boxes; a box that is not known moves
nothing, and a line of fewer than two points stays as it is. -/
def clipEnds (line : List (Point K)) (source target : Option (Box K)) : List (Point K) :=
  match line with
  | p :: q :: _ =>
    (source.map fun box => box.exit p q).getD p :: (clipLast target line).tail
  | _ => line

end ClassAtlas
