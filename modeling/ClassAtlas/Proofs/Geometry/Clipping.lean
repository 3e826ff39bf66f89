import Mathlib.Algebra.Order.Field.Rat
import Mathlib.Data.List.DropRight
import Mathlib.Data.List.Nodup
import ClassAtlas.Geometry.Route

/-!
# Clipped lines

Clipping a line moves its first and its last point. Seen as a first point, the points between and a
last point, a clipped line is a first point and a last point of its own around the same points
between: `clipEnds_eq`. The first point is moved by the box that the line starts in, looking at the
point behind it, and the last one by the box that it runs to, looking at the point before it. So the
two ends know nothing of each other, not even where a line has two points only and each end looks at
the other one.

The rules for the two ends are given one by one. Where distances can be subtracted and compared as
numbers can, they are one rule, seen from the two sides. Only a piece of no length tells them apart:
it leaves a box at the top and enters one at the bottom.
-/

namespace ClassAtlas

variable {K : Type}

/-! ## Lines by their ends -/

/-- A line of at least two points has a first and a last one. -/
theorem short_or_ends (line : List (Point K)) :
    line.length < 2 ∨ ∃ a inner z, line = a :: (inner ++ [z]) := by
  match line with
  | [] => exact .inl (by simp)
  | [_] => exact .inl (by simp)
  | a :: b :: rest =>
    obtain ⟨inner, z, hrest⟩ := (List.eq_nil_or_concat' (b :: rest)).resolve_left (by simp)
    exact .inr ⟨a, inner, z, by rw [hrest]⟩

theorem take_two_ends (a z : Point K) (inner : List (Point K)) :
    (a :: (inner ++ [z])).take 2 = [a, inner.headD z] := by
  cases inner <;> simp

theorem rtake_two_ends (a z : Point K) (inner : List (Point K)) :
    (a :: (inner ++ [z])).rtake 2 = [inner.getLastD a, z] := by
  rcases List.eq_nil_or_concat' inner with rfl | ⟨front, p, rfl⟩
  · rfl
  · have hline : a :: (front ++ [p] ++ [z]) = (a :: front) ++ [p, z] := by simp
    rw [hline, List.rtake]
    simp

section

variable [Add K] [Sub K] [Neg K] [LT K] [DecidableLT K] [LE K] [DecidableLE K] [OfNat K 0]

/-! ## First points and last points -/

/-- The first point of a line that goes on to `next`, moved by the box that the line starts in. -/
def firstPoint (source : Option (Box K)) (tip next : Point K) : Point K :=
  (source.map fun box => box.exit tip next).getD tip

/-- The last point of a line that comes from `previous`, moved by the box that the line runs to. -/
def lastPoint (target : Option (Box K)) (previous tip : Point K) : Point K :=
  (target.map fun box => box.entry previous tip).getD tip

theorem clipLast_append (target : Option (Box K)) (front : List (Point K)) (p q : Point K) :
    clipLast target (front ++ [p, q]) = front ++ [p, lastPoint target p q] := by
  induction front with
  | nil => rfl
  | cons a front ih =>
    -- `a` is not the last point but one
    obtain ⟨b, c, line, hline⟩ : ∃ b c line, front ++ [p, q] = b :: c :: line := by
      cases front with
      | nil => exact ⟨p, q, [], rfl⟩
      | cons b front => cases front <;> exact ⟨b, _, _, rfl⟩
    have hstep : clipLast target (a :: b :: c :: line) = a :: clipLast target (b :: c :: line) :=
      rfl
    rw [List.cons_append, hline, hstep, ← hline, ih]
    rfl

theorem tail_clipLast (target : Option (Box K)) (a z : Point K) (inner : List (Point K)) :
    (clipLast target (a :: (inner ++ [z]))).tail =
      inner ++ [lastPoint target (inner.getLastD a) z] := by
  rcases List.eq_nil_or_concat' inner with rfl | ⟨front, p, rfl⟩
  · rfl
  · have hline : a :: (front ++ [p] ++ [z]) = (a :: front) ++ [p, z] := by simp
    rw [hline, clipLast_append]
    simp

/-- **A clipped line.** Its ends are moved, each by its own box and with a look at its own
neighbour, and the points between them stay. -/
theorem clipEnds_eq (source target : Option (Box K)) (a z : Point K) (inner : List (Point K)) :
    clipEnds (a :: (inner ++ [z])) source target =
      firstPoint source a (inner.headD z) ::
        (inner ++ [lastPoint target (inner.getLastD a) z]) := by
  cases inner with
  | nil => rfl
  | cons b inner =>
    have hstep : clipEnds (a :: b :: (inner ++ [z])) source target =
      firstPoint source a b :: (clipLast target (a :: b :: (inner ++ [z]))).tail := rfl
    rw [List.cons_append, hstep, ← List.cons_append, tail_clipLast]
    rfl

theorem clipEnds_of_short {line : List (Point K)} (h : line.length < 2)
    (source target : Option (Box K)) : clipEnds line source target = line := by
  match line with
  | [] => rfl
  | [_] => rfl
  | _ :: _ :: _ => exact absurd h (by simp)

/-! ## What clipping keeps -/

theorem length_clipEnds (line : List (Point K)) (source target : Option (Box K)) :
    (clipEnds line source target).length = line.length := by
  rcases short_or_ends line with hshort | ⟨a, inner, z, rfl⟩
  · rw [clipEnds_of_short hshort]
  · rw [clipEnds_eq]
    simp

/-- The points between the ends stay. -/
theorem inner_clipEnds (line : List (Point K)) (source target : Option (Box K)) :
    (clipEnds line source target).tail.dropLast = line.tail.dropLast := by
  rcases short_or_ends line with hshort | ⟨a, inner, z, rfl⟩
  · rw [clipEnds_of_short hshort]
  · rw [clipEnds_eq]
    simp

/-- The first point is told by the first two points and the box that the line starts in. -/
theorem head?_clipEnds (line : List (Point K)) (source target : Option (Box K)) :
    (clipEnds line source target).head? = (clipEnds (line.take 2) source none).head? := by
  rcases short_or_ends line with hshort | ⟨a, inner, z, rfl⟩
  · rw [List.take_of_length_le (by omega), clipEnds_of_short hshort, clipEnds_of_short hshort]
  · rw [take_two_ends, clipEnds_eq]
    rfl

/-- The last point is told by the last two points and the box that the line runs to. -/
theorem getLast?_clipEnds (line : List (Point K)) (source target : Option (Box K)) :
    (clipEnds line source target).getLast? = (clipEnds (line.rtake 2) none target).getLast? := by
  rcases short_or_ends line with hshort | ⟨a, inner, z, rfl⟩
  · have hall : line.rtake 2 = line := by
      rw [List.rtake, Nat.sub_eq_zero_of_le (by omega), List.drop_zero]
    rw [hall, clipEnds_of_short hshort, clipEnds_of_short hshort]
  · have hpair : clipEnds [inner.getLastD a, z] none target =
        [inner.getLastD a, lastPoint target (inner.getLastD a) z] := rfl
    rw [rtake_two_ends, clipEnds_eq, hpair]
    simp [List.getLast?_cons]

end

/-! ## The two ends are alike -/

section

variable {F : Type} [Field F] [LinearOrder F] [IsStrictOrderedRing F]

theorem magnitude_eq_abs (a : F) : magnitude a = |a| := by
  unfold magnitude
  split
  · rename_i h
    exact (abs_of_neg h).symm
  · rename_i h
    exact (abs_of_nonneg (not_lt.mp h)).symm

theorem isSteep_iff {p q : Point F} : IsSteep p q ↔ |q.x - p.x| ≤ |q.y - p.y| := by
  unfold IsSteep
  rw [magnitude_eq_abs, magnitude_eq_abs]

/-- A piece of a line is as steep in the one direction as in the other. -/
theorem isSteep_comm {p q : Point F} : IsSteep p q ↔ IsSteep q p := by
  rw [isSteep_iff, isSteep_iff, abs_sub_comm q.x, abs_sub_comm q.y]

theorem isSteep_of_x_eq {p q : Point F} (h : p.x = q.x) : IsSteep p q := by
  rw [isSteep_iff, h, sub_self, abs_zero]
  exact abs_nonneg _

theorem not_isSteep_of_y_eq {p q : Point F} (hx : p.x ≠ q.x) (hy : p.y = q.y) :
    ¬ IsSteep p q := by
  rw [isSteep_iff, hy, sub_self, abs_zero, not_le, abs_pos, sub_ne_zero]
  exact hx.symm

/-- A steep piece that goes neither up nor down has no length. -/
theorem eq_of_isSteep {p q : Point F} (h : IsSteep p q) (hy : p.y = q.y) : p = q := by
  by_contra hne
  refine not_isSteep_of_y_eq (fun hx => hne ?_) hy h
  cases p
  cases q
  exact congrArg₂ Point.mk hx hy

/-- **A line leaves a box where, drawn the other way, it would come to it.** -/
theorem exit_eq_entry {p q : Point F} (h : p ≠ q) (box : Box F) : box.exit p q = box.entry q p := by
  unfold Box.exit Box.entry
  by_cases hsteep : IsSteep p q
  · rw [if_pos hsteep, if_pos (isSteep_comm.mp hsteep)]
    have hy : p.y ≠ q.y := fun hy => h (eq_of_isSteep hsteep hy)
    rcases lt_or_gt_of_ne hy with hlt | hgt
    · rw [if_pos hlt, if_neg hlt.not_gt]
    · rw [if_neg hgt.not_gt, if_pos hgt]
  · rw [if_neg hsteep, if_neg fun hback => hsteep (isSteep_comm.mp hback)]
    have hx : p.x ≠ q.x := fun hx => hsteep (isSteep_of_x_eq hx)
    rcases lt_or_gt_of_ne hx with hlt | hgt
    · rw [if_pos hlt, if_neg hlt.not_gt]
    · rw [if_neg hgt.not_gt, if_pos hgt]

theorem firstPoint_eq_lastPoint {p q : Point F} (h : p ≠ q) (box : Option (Box F)) :
    firstPoint box p q = lastPoint box q p := by
  cases box with
  | none => rfl
  | some box => exact exit_eq_entry h box

theorem clipEnds_reverse {line : List (Point F)} (hfirst : (line.take 2).Nodup)
    (hlast : (line.rtake 2).Nodup) (source target : Option (Box F)) :
    clipEnds line.reverse target source = (clipEnds line source target).reverse := by
  rcases short_or_ends line with hshort | ⟨a, inner, z, rfl⟩
  · rw [clipEnds_of_short hshort, clipEnds_of_short (by rwa [List.length_reverse])]
  · rw [take_two_ends] at hfirst
    rw [rtake_two_ends] at hlast
    have ha : a ≠ inner.headD z := by simpa using hfirst
    have hz : inner.getLastD a ≠ z := by simpa using hlast
    -- turned around, the neighbour of each end is the neighbour it had
    have hturned : (a :: (inner ++ [z])).reverse = z :: (inner.reverse ++ [a]) := by simp
    have hhead : inner.reverse.headD a = inner.getLastD a := by
      rw [List.headD_eq_head?_getD, List.head?_reverse, List.getLastD_eq_getLast?]
    have hend : inner.reverse.getLastD z = inner.headD z := by
      rw [List.getLastD_eq_getLast?, List.getLast?_reverse, List.headD_eq_head?_getD]
    rw [hturned, clipEnds_eq, clipEnds_eq, hhead, hend, firstPoint_eq_lastPoint hz.symm,
      ← firstPoint_eq_lastPoint ha]
    simp

end

/-- **Clipping treats both ends of a line alike, and each on its own.** A clipped line has as many
points as before and the same points between its ends. Its first point is that of its first two
points, clipped for the first box alone, and its last point that of its last two, clipped for the
last box alone, whatever else the line and the boxes are. Where numbers are exact and neither end is
a piece of no length, the line drawn the other way between the same boxes is clipped to the same
line drawn the other way. -/
theorem clipping_treats_ends_alike {K : Type} [Add K] [Sub K] [Neg K] [LT K] [DecidableLT K] [LE K]
    [DecidableLE K] [OfNat K 0] {F : Type} [Field F] [LinearOrder F] [IsStrictOrderedRing F] :
    (∀ (line : List (Point K)) (source target : Option (Box K)),
      (clipEnds line source target).length = line.length ∧
        (clipEnds line source target).tail.dropLast = line.tail.dropLast ∧
        (clipEnds line source target).head? = (clipEnds (line.take 2) source none).head? ∧
        (clipEnds line source target).getLast? =
          (clipEnds (line.rtake 2) none target).getLast?) ∧
    ∀ (line : List (Point F)) (source target : Option (Box F)),
      (line.take 2).Nodup → (line.rtake 2).Nodup →
        clipEnds line.reverse target source = (clipEnds line source target).reverse := by
  refine ⟨fun line source target => ?_, fun line source target hfirst hlast => ?_⟩
  · exact ⟨length_clipEnds line source target, inner_clipEnds line source target,
      head?_clipEnds line source target, getLast?_clipEnds line source target⟩
  · exact clipEnds_reverse hfirst hlast source target

/-- A line that leaves a box to the right, a little downwards, and comes to the other box from
below, with a last piece as wide as it is high. -/
def zigzag : List (Point ℚ) := [⟨0, 0⟩, ⟨30, 1 / 2⟩, ⟨30, 80⟩, ⟨40, 70⟩]

theorem clipping_treats_ends_alike_zigzag :
    (zigzag.take 2).Nodup ∧ (zigzag.rtake 2).Nodup ∧
      clipEnds zigzag.reverse (some ⟨⟨40, 60⟩, 8, 20⟩) (some ⟨⟨0, 0⟩, 6, 4⟩) =
        (clipEnds zigzag (some ⟨⟨0, 0⟩, 6, 4⟩) (some ⟨⟨40, 60⟩, 8, 20⟩)).reverse ∧
      clipEnds zigzag (some ⟨⟨0, 0⟩, 6, 4⟩) (some ⟨⟨40, 60⟩, 8, 20⟩) =
        [⟨6, 0⟩, ⟨30, 1 / 2⟩, ⟨30, 80⟩, ⟨40, 80⟩] := by
  have hfirst : (zigzag.take 2).Nodup := by decide +kernel
  have hlast : (zigzag.rtake 2).Nodup := by decide +kernel
  exact ⟨hfirst, hlast, (clipping_treats_ends_alike (K := ℚ)).2 _ _ _ hfirst hlast,
    by decide +kernel⟩

end ClassAtlas
