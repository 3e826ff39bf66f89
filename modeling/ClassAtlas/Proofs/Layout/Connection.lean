import ClassAtlas.Proofs.Geometry.Routes
import ClassAtlas.Proofs.Layout.Drawing

/-!
# Arrows are drawn from box to box

A layout draws the arrows last, when every box has been put in its place. An arrow looks up the
boxes at its ends by their ids, and drawing arrows changes neither ids nor boxes. So the boxes that
an arrow was drawn between are those that its ids find in the diagram that comes out, also where
several elements bear one id, and by then they have a place: every box that an id finds is in the
chart, and so in one of the components.
-/

namespace ClassAtlas

variable {K : Type} [Add K] [Sub K] [Neg K] [Div K] [LT K] [DecidableLT K] [LE K] [DecidableLE K]
  [OfNat K 0] [OfNat K 1] [OfNat K 2] {engine : Engine K} {settings : LayoutSettings K}
  {d : Diagram K}

/-! ## The boxes that ids find -/

theorem reroute_id (settings : LayoutSettings K) (d : Diagram K) (e : Element K) :
    (d.reroute settings e).id = e.id := by
  rw [← unplaced_id, unplaced_reroute, unplaced_id]

theorem node?_reroute (settings : LayoutSettings K) (d : Diagram K) (e : Element K) :
    (d.reroute settings e).node? = e.node? := by
  cases e with
  | node n => rfl
  | note t => rfl
  | arrow a =>
    unfold Diagram.reroute
    split
    · rfl
    · split <;> rfl

/-- Drawing the arrows leaves the boxes where they have been put. -/
theorem nodes_redraw (settings : LayoutSettings K) (d : Diagram K)
    (corners : List (String × Point K)) :
    (d.redraw settings corners).nodes = (d.moveBoxes corners).nodes := by
  unfold Diagram.nodes
  rw [elements_redraw, List.filterMap_map]
  exact List.filterMap_congr fun e _ => node?_reroute settings _ e

/-- The box that an id finds in a diagram that has been drawn anew is the one that it finds when the
boxes have been put in their places. -/
theorem node?_redraw (settings : LayoutSettings K) (d : Diagram K)
    (corners : List (String × Point K)) (x : String) :
    (d.redraw settings corners).node? x = (d.moveBoxes corners).node? x := by
  unfold Diagram.node? Diagram.find?
  rw [elements_redraw, List.find?_map]
  set moved := d.moveBoxes corners
  have hsame :
      ((fun e : Element K => e.id == x) ∘ moved.reroute settings) = fun e => e.id == x := by
    funext e
    rw [Function.comp_apply, reroute_id]
  rw [hsame, Option.bind_map]
  exact congrArg _ (funext fun e => node?_reroute settings moved e)

/-- A box that an id finds is found again in its place. -/
theorem Diagram.Cornered.exists_node? {corners : List (String × Point K)}
    (hcorners : d.Cornered corners) (settings : LayoutSettings K) {x : String}
    (h : (d.node? x).isSome) :
    ∃ n, (d.redraw settings corners).node? x = some n ∧ n.position.isSome := by
  obtain ⟨n, hn⟩ := Option.isSome_iff_exists.mp h
  obtain ⟨hmem, rfl⟩ := of_node? hn
  obtain ⟨corner, hcorner⟩ := Option.isSome_iff_exists.mp (hcorners n hmem)
  refine ⟨{ n with position := some corner }, ?_, rfl⟩
  rw [node?_redraw, node?_moveBoxes, hn, hcorner]
  rfl

/-! ## Arrows between boxes -/

/-- **Every arrow between two boxes is drawn from the one to the other.** An arrow whose two ids
find boxes keeps its place among the elements and gets a line from the middle of a side of its
source to the middle of a side of its target, with at most one corner, which is straight above or
below the center of the source and straight beside that of the target. The boxes are those that the
ids find when all is drawn, with their new places and with their own sizes or the size of boxes that
have none. -/
theorem arrows_join_their_boxes (engine : Engine K) (hpart : engine.Partitions)
    (settings : LayoutSettings K) (d : Diagram K) (hdraws : engine.Draws settings d) :
    ∃ x, d.arrangeWith engine settings = .ok x ∧ ∀ (i : Nat) (a : Arrow K),
      d.elements[i]? = some (.arrow a) → a.kind.isKnown = true →
      (d.node? a.source).isSome → (d.node? a.target).isSome →
      ∃ source target line,
        x.node? a.source = some source ∧ source.position.isSome ∧
          x.node? a.target = some target ∧ target.position.isSome ∧
          x.elements[i]? = some (.arrow { a with points := some line }) ∧
          Joins (source.box settings) (target.box settings) line := by
  obtain ⟨x, hx⟩ := exists_arrangeWith_iff.mpr hdraws
  refine ⟨x, hx, fun i a ha hk hsource htarget => ?_⟩
  obtain ⟨corners, hplaces, rfl⟩ := arrangeWith_eq_ok_iff.mp hx
  have hcorners := hpart.cornered hplaces
  obtain ⟨source, hs, hsplace⟩ := hcorners.exists_node? settings hsource
  obtain ⟨target, ht, htplace⟩ := hcorners.exists_node? settings htarget
  -- the line was drawn when the boxes had been moved, to the boxes that are found in the end
  have hline := redraw_arrow settings ha hk ((node?_redraw settings d corners _).symm.trans hs)
    ((node?_redraw settings d corners _).symm.trans ht)
  exact ⟨source, target, _, hs, hsplace, ht, htplace, hline, routeBetween_joins ..⟩

/-- An engine that draws the boxes of a component like the steps of a stair. -/
def stairsEngine : Engine ℚ where
  components := Chart.components
  drawing := fun _ chart =>
    .ok (chart.boxes.zipIdx.map fun (box, i) => (box.1, ⟨100 * i, -70 * i⟩))

theorem partitions_stairsEngine : stairsEngine.Partitions := Chart.partitions_components _

theorem occupied_stairsEngine : stairsEngine.Occupied := Chart.occupied_components _

theorem draws_stairsEngine (settings : LayoutSettings ℚ) (d : Diagram ℚ) :
    stairsEngine.Draws settings d := Engine.draws_of_total (fun _ _ => ⟨_, rfl⟩) settings d

/-- Small boxes and narrow gaps. -/
def narrowSettings : LayoutSettings ℚ where
  boxSize := ⟨30, 20⟩
  boxGap := 10
  layerGap := 10
  padding := 5

/-- A hall with two boxes that have one id, arrows there and back, and one that stays where it is.
-/
def hall : Diagram ℚ :=
  { id := "d"
    name := "Hall"
    created := 0
    updated := 0
    elements :=
      [.node { id := "1", kind := .classBox, position := none, text := some "Dog" },
       .node { id := "2", kind := .classBox, position := some ⟨7, 7⟩, size := some ⟨20, 10⟩ },
       .node { id := "1", kind := .classBox, position := some ⟨5, 5⟩, size := some ⟨60, 50⟩ },
       .arrow { id := "3", kind := .inheritance, source := "1", target := "2" },
       .arrow { id := "4", kind := .dependency, source := "2", target := "1", points := some [] },
       .arrow { id := "4", kind := .association, source := "2", target := "2" }] }

theorem arrows_join_their_boxes_hall :
    stairsEngine.Partitions ∧ stairsEngine.Draws narrowSettings hall ∧
      (hall.node? "1").isSome ∧ (hall.node? "2").isSome ∧
      (∃ x, hall.arrangeWith stairsEngine narrowSettings = .ok x ∧ ∃ source target line,
        x.node? "1" = some source ∧ source.position.isSome ∧
          x.node? "2" = some target ∧ target.position.isSome ∧
          x.elements[3]? =
            some (.arrow
              { id := "3", kind := .inheritance, source := "1", target := "2",
                points := some line }) ∧
          Joins (source.box narrowSettings) (target.box narrowSettings) line) ∧
      (hall.arrangeWith stairsEngine narrowSettings).toOption.map
          (fun x => x.arrows.map (·.points)) =
        some [some [⟨100, 25⟩, ⟨100, 100⟩, ⟨25, 100⟩], some [⟨15, 95⟩, ⟨15, 15⟩, ⟨85, 15⟩],
          some [⟨15, 95⟩, ⟨15, 105⟩]] := by
  have hone : (hall.node? "1").isSome := by decide
  have htwo : (hall.node? "2").isSome := by decide
  have hdraws := draws_stairsEngine narrowSettings hall
  obtain ⟨x, hx, hjoined⟩ :=
    arrows_join_their_boxes stairsEngine partitions_stairsEngine narrowSettings hall hdraws
  exact ⟨partitions_stairsEngine, hdraws, hone, htwo, ⟨x, hx, hjoined 3
    { id := "3", kind := .inheritance, source := "1", target := "2" } rfl rfl hone htwo⟩,
    by decide +kernel⟩

end ClassAtlas
