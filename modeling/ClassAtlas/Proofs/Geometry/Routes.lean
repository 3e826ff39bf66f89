import Mathlib.Data.List.Chain
import ClassAtlas.Layout.Placement
import ClassAtlas.Proofs.Geometry.Clipping

/-!
# Routes between two boxes

A route is drawn from center to center and clipped at both ends. Since each end is a center, what
clipping makes of it is the middle of a side, whatever kind of numbers the coordinates are.

With exact numbers a route keeps its right angles. A piece along an axis is judged to run along that
axis, so its ends are moved along it: from the corner of a route the source is straight above or
below, and the target straight to the left or right. Only a straight line between centers that are a
little out of line is drawn, and clipped, at an angle.
-/

namespace ClassAtlas

section

variable {K : Type} [Add K] [Sub K] [Neg K] [LT K] [DecidableLT K] [LE K] [DecidableLE K]
  [OfNat K 0]

/-! ## Ends at the sides -/

/-- The end of a steep piece is moved up or down, that of a flat one to the left or right. -/
theorem exit_x {p q : Point K} (h : IsSteep p q) (box : Box K) : (box.exit p q).x = p.x := by
  rw [Box.exit, if_pos h]

theorem exit_y {p q : Point K} (h : ¬ IsSteep p q) (box : Box K) : (box.exit p q).y = p.y := by
  rw [Box.exit, if_neg h]

theorem entry_x {p q : Point K} (h : IsSteep p q) (box : Box K) : (box.entry p q).x = q.x := by
  rw [Box.entry, if_pos h]

theorem entry_y {p q : Point K} (h : ¬ IsSteep p q) (box : Box K) : (box.entry p q).y = q.y := by
  rw [Box.entry, if_neg h]

/-- The middles of the four sides of a box: of the top, the bottom, the left and the right one. -/
def Box.middles (box : Box K) : List (Point K) :=
  [⟨box.center.x, box.center.y - box.halfHeight⟩, ⟨box.center.x, box.center.y + box.halfHeight⟩,
    ⟨box.center.x - box.halfWidth, box.center.y⟩, ⟨box.center.x + box.halfWidth, box.center.y⟩]

/-- A line from the center of a box leaves it in the middle of a side. -/
theorem exit_mem_middles (box : Box K) (next : Point K) :
    box.exit box.center next ∈ box.middles := by
  unfold Box.exit Box.middles
  split
  · split <;> simp
  · split <;> simp

/-- A line to the center of a box comes to it in the middle of a side. -/
theorem entry_mem_middles (box : Box K) (previous : Point K) :
    box.entry previous box.center ∈ box.middles := by
  unfold Box.entry Box.middles
  split
  · split <;> simp
  · split <;> simp

/-- A line runs from the middle of a side of one box to the middle of a side of another one. If it
has a corner, this is straight above or below the center of the first and straight beside the center
of the second. -/
inductive Joins (source target : Box K) : List (Point K) → Prop
  | straight {p q : Point K} (hp : p ∈ source.middles) (hq : q ∈ target.middles) :
    Joins source target [p, q]
  | cornered {p q : Point K} (hp : p ∈ source.middles) (hq : q ∈ target.middles) :
    Joins source target [p, ⟨source.center.x, target.center.y⟩, q]

variable [OfNat K 1]

/-- Centers that are joined by a straight line. -/
def StraightBetween (p q : Point K) : Prop := magnitude (q.x - p.x) < 1 ∨ magnitude (q.y - p.y) < 1

theorem routeBetween_straight {source target : Box K}
    (h : StraightBetween source.center target.center) :
    routeBetween source target =
      [source.exit source.center target.center, target.entry source.center target.center] := by
  unfold routeBetween
  rw [show route source.center target.center = _ from if_pos h]
  rfl

theorem routeBetween_cornered {source target : Box K}
    (h : ¬ StraightBetween source.center target.center) :
    routeBetween source target =
      [source.exit source.center ⟨source.center.x, target.center.y⟩,
        ⟨source.center.x, target.center.y⟩,
        target.entry ⟨source.center.x, target.center.y⟩ target.center] := by
  unfold routeBetween
  rw [show route source.center target.center = _ from if_neg h]
  rfl

/-- **A route joins its boxes,** even where they are one box. -/
theorem routeBetween_joins (source target : Box K) :
    Joins source target (routeBetween source target) := by
  by_cases h : StraightBetween source.center target.center
  · rw [routeBetween_straight h]
    exact .straight (exit_mem_middles ..) (entry_mem_middles ..)
  · rw [routeBetween_cornered h]
    exact .cornered (exit_mem_middles ..) (entry_mem_middles ..)

end

/-! ## Right angles -/

section

variable {K : Type} [Field K] [LinearOrder K] [IsStrictOrderedRing K]

/-- Two points lie straight above or straight beside each other. -/
def Aligned (p q : Point K) : Prop := p.x = q.x ∨ p.y = q.y

/-- Two points are not aligned, but on one axis they lie less than one unit apart. -/
def NearlyAligned (p q : Point K) : Prop :=
  p.x ≠ q.x ∧ p.y ≠ q.y ∧ (|q.x - p.x| < 1 ∨ |q.y - p.y| < 1)

instance (p q : Point K) : Decidable (NearlyAligned p q) :=
  inferInstanceAs (Decidable (_ ∧ _ ∧ _))

theorem straightBetween_iff {p q : Point K} :
    StraightBetween p q ↔ |q.x - p.x| < 1 ∨ |q.y - p.y| < 1 := by
  unfold StraightBetween
  rw [magnitude_eq_abs, magnitude_eq_abs]

/-- The ends of a straight line between aligned centers stay aligned. -/
theorem Aligned.clipped {p q : Point K} (h : Aligned p q) (source target : Box K) :
    Aligned (source.exit p q) (target.entry p q) := by
  by_cases hx : p.x = q.x
  · have hsteep := isSteep_of_x_eq hx
    exact .inl (by rw [exit_x hsteep, entry_x hsteep, hx])
  · have hy : p.y = q.y := h.resolve_left hx
    have hflat := not_isSteep_of_y_eq hx hy
    exact .inr (by rw [exit_y hflat, entry_y hflat, hy])

/-- Centers with a corner between them differ on the axis along which the route comes to the
second one. -/
theorem x_ne_of_not_straightBetween {p q : Point K} (h : ¬ StraightBetween p q) : p.x ≠ q.x := by
  intro hx
  refine h (straightBetween_iff.mpr (.inl ?_))
  rw [hx, sub_self, abs_zero]
  exact one_pos

/-- **Routes keep their right angles.** Between two boxes of any sizes, any two neighbouring points
of the clipped route lie straight above or straight beside each other, but for centers that are a
little out of line, which are joined by one straight line. -/
theorem routes_stay_orthogonal (source target : Box K) :
    (¬ NearlyAligned source.center target.center →
      (routeBetween source target).IsChain Aligned) ∧
    (NearlyAligned source.center target.center →
      route source.center target.center = [source.center, target.center]) := by
  refine ⟨fun hnear => ?_, fun hnear => if_pos (straightBetween_iff.mpr hnear.2.2)⟩
  by_cases h : StraightBetween source.center target.center
  · -- a straight line between centers that are not nearly aligned runs along an axis
    have haligned : Aligned source.center target.center := by
      by_contra hnot
      rw [Aligned, not_or] at hnot
      exact hnear ⟨hnot.1, hnot.2, straightBetween_iff.mp h⟩
    rw [routeBetween_straight h]
    exact List.isChain_pair.mpr (haligned.clipped source target)
  · -- down to the corner, then across: clipping moves each end along its own part
    rw [routeBetween_cornered h]
    set corner : Point K := ⟨source.center.x, target.center.y⟩
    have hdown : IsSteep source.center corner := isSteep_of_x_eq rfl
    have hx : source.center.x ≠ target.center.x := x_ne_of_not_straightBetween h
    have hacross : ¬ IsSteep corner target.center := not_isSteep_of_y_eq hx rfl
    have hfirst : Aligned (source.exit source.center corner) corner := .inl (exit_x hdown source)
    have hlast : Aligned corner (target.entry corner target.center) :=
      .inr (entry_y hacross target).symm
    exact List.isChain_cons_cons.mpr ⟨hfirst, List.isChain_pair.mpr hlast⟩

/-- Boxes one unit apart on one axis have a corner between them, and boxes nearer than that, but not
in line, have not. -/
theorem routes_stay_orthogonal_at_one :
    ¬ NearlyAligned (⟨0, 0⟩ : Point ℚ) ⟨1, -90⟩ ∧
      (routeBetween (⟨⟨0, 0⟩, 30, 20⟩ : Box ℚ) ⟨⟨1, -90⟩, 40, 10⟩).IsChain Aligned ∧
      routeBetween (⟨⟨0, 0⟩, 30, 20⟩ : Box ℚ) ⟨⟨1, -90⟩, 40, 10⟩ =
        [⟨0, -20⟩, ⟨0, -90⟩, ⟨-39, -90⟩] ∧
      NearlyAligned (⟨0, 0⟩ : Point ℚ) ⟨1 / 2, -90⟩ ∧
      route (⟨0, 0⟩ : Point ℚ) ⟨1 / 2, -90⟩ = [⟨0, 0⟩, ⟨1 / 2, -90⟩] := by
  have hfar : ¬ NearlyAligned (⟨0, 0⟩ : Point ℚ) ⟨1, -90⟩ := by decide +kernel
  have hnear : NearlyAligned (⟨0, 0⟩ : Point ℚ) ⟨1 / 2, -90⟩ := by decide +kernel
  exact ⟨hfar, (routes_stay_orthogonal ⟨_, 30, 20⟩ ⟨_, 40, 10⟩).1 hfar, by decide +kernel, hnear,
    (routes_stay_orthogonal ⟨_, 30, 20⟩ ⟨_, 40, 10⟩).2 hnear⟩

end

end ClassAtlas
