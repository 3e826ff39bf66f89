import Mathlib.Algebra.Order.Field.Basic
import Mathlib.Order.Bounds.Basic
import Mathlib.Data.List.Chain
import Mathlib.Tactic.Linarith
import Mathlib.Tactic.Ring
import ClassAtlas.Proofs.Layout.Components

/-!
# Components in a row

The components of a chart are placed one behind the other. What is drawn for a component may lie
anywhere; placing it moves it as a whole, so that its left edge comes to where the row has got to
and its top edge to the padding. The row then goes on behind its right edge, with a gap.

`Spans` says this of one component, between the place where it begins and the place where the row
goes on. `InRow` says it of all components behind a place, and follows from `Spans` by induction on
the components: since boxes and gaps are not narrower than nothing, whatever comes later in the row
also lies further to the right. Both are told by the corner of every box, however the corners are
listed.
-/

namespace ClassAtlas

/-! ## Least and greatest numbers -/

section

variable {K : Type} [LinearOrder K]

theorem isLeast_least (x : K) (xs : List K) : IsLeast {y | y ∈ x :: xs} (least x xs) := by
  induction xs generalizing x with
  | nil => exact ⟨List.mem_singleton.mpr rfl, fun y hy => (List.mem_singleton.mp hy).ge⟩
  | cons y ys ih =>
    -- the least so far is carried along, and the induction is over every such one
    have hstep : least x (y :: ys) = least (min y x) ys := by
      unfold least
      rw [List.foldl_cons, min_def_lt]
    obtain ⟨hmem, hle⟩ := ih (min y x)
    rw [hstep]
    refine ⟨?_, fun z hz => ?_⟩
    · show least (min y x) ys ∈ x :: y :: ys
      rcases List.mem_cons.mp hmem with heq | htail
      · rw [heq]
        rcases min_choice y x with h | h <;> simp [h]
      · exact List.mem_cons_of_mem _ (List.mem_cons_of_mem _ htail)
    · have hmin : least (min y x) ys ≤ min y x := hle (List.mem_cons_self ..)
      rcases List.mem_cons.mp hz with rfl | hz
      · exact hmin.trans (min_le_right ..)
      · rcases List.mem_cons.mp hz with rfl | hz
        · exact hmin.trans (min_le_left ..)
        · exact hle (List.mem_cons_of_mem _ hz)

/-- The least of what is measured on the members of a list that is not empty. -/
theorem isLeast_least_map {α : Type} (f : α → K) (x : α) (xs : List α) :
    IsLeast {y | ∃ a ∈ x :: xs, f a = y} (least (f x) (xs.map f)) := by
  have h := isLeast_least (f x) (xs.map f)
  simpa only [← List.map_cons, List.mem_map] using h

theorem isGreatest_greatest_map {α : Type} (f : α → K) (x : α) (xs : List α) :
    IsGreatest {y | ∃ a ∈ x :: xs, f a = y} (greatest (f x) (xs.map f)) :=
  isLeast_least_map (K := Kᵒᵈ) f x xs

variable [AddCommGroup K] [IsOrderedAddMonoid K]

/-- What is measured further on by some distance is least where it was least before. -/
theorem isLeast_add {α : Type} {f g : α → K} {xs : List α} {m c : K}
    (h : IsLeast {y | ∃ a ∈ xs, f a = y} m) (hg : ∀ a ∈ xs, g a = f a + c) :
    IsLeast {y | ∃ a ∈ xs, g a = y} (m + c) := by
  obtain ⟨⟨a, ha, rfl⟩, hle⟩ := h
  refine ⟨⟨a, ha, hg a ha⟩, ?_⟩
  rintro _ ⟨b, hb, rfl⟩
  rw [hg b hb]
  exact add_le_add_left (hle ⟨b, hb, rfl⟩) c

theorem isGreatest_add {α : Type} {f g : α → K} {xs : List α} {m c : K}
    (h : IsGreatest {y | ∃ a ∈ xs, f a = y} m) (hg : ∀ a ∈ xs, g a = f a + c) :
    IsGreatest {y | ∃ a ∈ xs, g a = y} (m + c) :=
  isLeast_add (K := Kᵒᵈ) h hg

end

variable {K : Type} [Field K] [LinearOrder K] [IsStrictOrderedRing K] {settings : LayoutSettings K}
  {center corner : String → Point K} {boxes : List (String × Size K)} {left next : K}

/-! ## One component -/

/-- The boxes of a component have been moved to their corners, and take up the row from `left` up to
where it goes on. -/
structure Spans (settings : LayoutSettings K) (center corner : String → Point K)
    (boxes : List (String × Size K)) (left next : K) : Prop where
  /-- All boxes are moved from their centers by one distance. -/
  rigid : ∃ dx dy, ∀ b ∈ boxes,
    corner b.1 = b.2.cornerAt ⟨(center b.1).x + dx, (center b.1).y + dy⟩
  /-- The left edge of the component is where it begins. -/
  left : IsLeast {x | ∃ b ∈ boxes, (corner b.1).x = x} left
  /-- The top edge of the component is at the padding. -/
  top : IsLeast {y | ∃ b ∈ boxes, (corner b.1).y = y} settings.padding
  /-- The row goes on behind the right edge of the component and a gap. -/
  right : IsGreatest {x | ∃ b ∈ boxes, (corner b.1).x + b.2.width + settings.boxGap = x} next

/-- **Placing a component.** Its drawing is moved to where the component is to begin. -/
theorem spans_placeComponent (hboxes : boxes ≠ [])
    (hcorner : ∀ p ∈ (placeComponent settings left boxes center).1, corner p.1 = p.2) :
    Spans settings center corner boxes left (placeComponent settings left boxes center).2 := by
  cases boxes with
  | nil => exact absurd rfl hboxes
  | cons box rest =>
    simp only [placeComponent] at hcorner ⊢
    have hminX := isLeast_least_map (fun b : String × Size K => (center b.1).x - b.2.width / 2)
      box rest
    have hmaxX := isGreatest_greatest_map
      (fun b : String × Size K => (center b.1).x + b.2.width / 2) box rest
    have hminY := isLeast_least_map (fun b : String × Size K => (center b.1).y - b.2.height / 2)
      box rest
    set minX := least ((center box.1).x - box.2.width / 2)
      (rest.map fun b => (center b.1).x - b.2.width / 2)
    set maxX := greatest ((center box.1).x + box.2.width / 2)
      (rest.map fun b => (center b.1).x + b.2.width / 2)
    set minY := least ((center box.1).y - box.2.height / 2)
      (rest.map fun b => (center b.1).y - b.2.height / 2)
    -- edges of the drawing become edges of corners when all are moved by one distance
    have hput : ∀ b ∈ box :: rest, corner b.1 = b.2.cornerAt
        ⟨(center b.1).x - minX + left, (center b.1).y - minY + settings.padding⟩ :=
      fun b hb => hcorner _ (List.mem_map_of_mem hb)
    have hx : ∀ b ∈ box :: rest,
        (corner b.1).x = (center b.1).x - b.2.width / 2 + (left - minX) := by
      intro b hb
      rw [hput b hb, Size.cornerAt]
      ring
    have hy : ∀ b ∈ box :: rest,
        (corner b.1).y = (center b.1).y - b.2.height / 2 + (settings.padding - minY) := by
      intro b hb
      rw [hput b hb, Size.cornerAt]
      ring
    have hright : ∀ b ∈ box :: rest, (corner b.1).x + b.2.width + settings.boxGap =
        (center b.1).x + b.2.width / 2 + (left - minX + settings.boxGap) := by
      intro b hb
      rw [hx b hb]
      ring
    exact {
      rigid := by
        refine ⟨left - minX, settings.padding - minY, fun b hb => ?_⟩
        rw [hput b hb, sub_add_eq_add_sub, sub_add_eq_add_sub, add_sub_assoc, add_sub_assoc]
      left := by simpa using isLeast_add hminX hx
      top := by simpa using isLeast_add hminY hy
      right := by
        have hnext : left + (maxX - minX + settings.boxGap) =
            maxX + (left - minX + settings.boxGap) := by ring
        rw [hnext]
        exact isGreatest_add hmaxX hright }

/-- The row goes on to the right. -/
theorem Spans.left_le_next (h : Spans settings center corner boxes left next)
    (hgap : 0 ≤ settings.boxGap) (hwide : ∀ b ∈ boxes, 0 ≤ b.2.width) : left ≤ next := by
  obtain ⟨b, hb, hleft⟩ := h.left.1
  have hright := h.right.2 ⟨b, hb, rfl⟩
  have hwidth := hwide b hb
  linarith

/-! ## All components -/

/-- Components stand in a row from `left` on, each as it was drawn. -/
structure InRow (settings : LayoutSettings K) (drawing : Drawing K) (corner : String → Point K)
    (left : K) (charts : List (Chart K)) : Prop where
  /-- No box stands further left than where the row begins. -/
  beyond : ∀ c ∈ charts, ∀ b ∈ c.boxes, left ≤ (corner b.1).x
  /-- The first component begins there. -/
  begins : ∀ c ∈ charts.head?, ∃ b ∈ c.boxes, (corner b.1).x = left
  /-- The top edge of each component is at the padding. -/
  tops : ∀ c ∈ charts, IsLeast {y | ∃ b ∈ c.boxes, (corner b.1).y = y} settings.padding
  /-- Whatever stands in a later component stands behind a gap. -/
  apart : charts.Pairwise fun c c' => ∀ b ∈ c.boxes, ∀ b' ∈ c'.boxes,
    (corner b.1).x + b.2.width + settings.boxGap ≤ (corner b'.1).x
  /-- Between neighbours there is this gap and no more. -/
  touching : charts.IsChain fun c c' => ∃ b ∈ c.boxes, ∃ b' ∈ c'.boxes,
    (corner b.1).x + b.2.width + settings.boxGap = (corner b'.1).x
  /-- The boxes of a component are moved from their centers by one distance. -/
  rigid : ∀ c ∈ charts, ∃ centers, drawing settings c = .ok centers ∧
    ∃ dx dy, ∀ b ∈ c.boxes, corner b.1 =
      b.2.cornerAt ⟨(centerOf centers b.1).x + dx, (centerOf centers b.1).y + dy⟩

omit [IsStrictOrderedRing K] in
theorem inRow_nil (settings : LayoutSettings K) (drawing : Drawing K)
    (corner : String → Point K) (left : K) : InRow settings drawing corner left [] where
  beyond := by simp
  begins := by simp
  tops := by simp
  apart := .nil
  touching := .nil
  rigid := by simp

omit [IsStrictOrderedRing K] in
/-- A component in front of a row that begins where the component has the row go on. -/
theorem InRow.cons {drawing : Drawing K} {chart : Chart K} {charts : List (Chart K)}
    {centers : List (String × Point K)} (hcenters : drawing settings chart = .ok centers)
    (h : Spans settings (centerOf centers) corner chart.boxes left next)
    (hrow : InRow settings drawing corner next charts) (hle : left ≤ next) :
    InRow settings drawing corner left (chart :: charts) where
  beyond := by
    intro c hc b hb
    rcases List.mem_cons.mp hc with rfl | hc
    · exact h.left.2 ⟨b, hb, rfl⟩
    · exact hle.trans (hrow.beyond c hc b hb)
  begins := by
    intro c hc
    obtain rfl : chart = c := by simpa using hc
    exact h.left.1
  tops := List.forall_mem_cons.mpr ⟨h.top, hrow.tops⟩
  apart := by
    refine List.pairwise_cons.mpr ⟨fun c' hc' b hb b' hb' => ?_, hrow.apart⟩
    exact (h.right.2 ⟨b, hb, rfl⟩).trans (hrow.beyond c' hc' b' hb')
  touching := by
    cases charts with
    | nil => exact .singleton _
    | cons c' charts =>
      -- the box that reaches furthest and the one that begins the rest of the row meet at `next`
      obtain ⟨b, hb, hright⟩ := h.right.1
      obtain ⟨b', hb', hleft⟩ := hrow.begins c' rfl
      exact List.isChain_cons_cons.mpr ⟨⟨b, hb, b', hb', hright.trans hleft.symm⟩, hrow.touching⟩
  rigid := List.forall_mem_cons.mpr ⟨⟨centers, hcenters, h.rigid⟩, hrow.rigid⟩

/-- **Components are placed in a row,** whatever was drawn for them. -/
theorem inRow_placeComponents {drawing : Drawing K} (hgap : 0 ≤ settings.boxGap)
    {charts : List (Chart K)} (hfull : ∀ c ∈ charts, c.boxes ≠ [])
    (hwide : ∀ c ∈ charts, ∀ b ∈ c.boxes, 0 ≤ b.2.width) {corners : List (String × Point K)}
    (hplace : placeComponents settings drawing left charts = .ok corners)
    (hcorner : ∀ p ∈ corners, corner p.1 = p.2) : InRow settings drawing corner left charts := by
  -- each component decides where the row behind it begins
  induction charts generalizing left corners with
  | nil => exact inRow_nil ..
  | cons chart charts ih =>
    obtain ⟨centers, hcenters, others, hrest, rfl⟩ := placeComponents_cons_eq_ok.mp hplace
    obtain ⟨hfirst, hothers⟩ := List.forall_mem_append.mp hcorner
    obtain ⟨hchart, hcharts⟩ := List.forall_mem_cons.mp hfull
    obtain ⟨hwidth, hwidths⟩ := List.forall_mem_cons.mp hwide
    have hspans := spans_placeComponent hchart hfirst
    have hrow := ih hcharts hwidths hrest hothers
    exact .cons hcenters hspans hrow (hspans.left_le_next hgap hwidth)

end ClassAtlas
