import ClassAtlas.Proofs.Layout.Connection
import ClassAtlas.Proofs.Layout.Forgetting
import ClassAtlas.Proofs.Layout.Row

/-!
# Components side by side

The row in which components are placed is a row of corners, given by ids. It becomes a row of boxes
when each id finds its box and the chart has the size that the box is drawn with. Both are so where
boxes have ids of their own. Of several boxes with one id the chart knows the last size and the
layout moves the first box, and a box behind a note or an arrow with its id is not moved at all.

What an engine draws for a component may be anything: only that its components are a partition of
the boxes, and none of them empty, is asked of it.
-/

namespace ClassAtlas

variable {K : Type}

/-! ## Boxes with ids of their own -/

/-- Every box has an id of its own: no element in front of it bears the id. -/
def Diagram.OwnIds (d : Diagram K) : Prop :=
  ∀ i n, d.elements[i]? = some (.node n) → n.kind.isKnown = true → n.id ∉ d.ids.take i

theorem ownIds_of_nodup {d : Diagram K} (hn : d.ids.Nodup) : d.OwnIds :=
  fun _ _ hi hk => ((redraws_box_iff hn hi).mpr hk).2

theorem Diagram.OwnIds.nodup {d : Diagram K} (h : d.OwnIds) : (d.nodes.map (·.id)).Nodup := by
  unfold Diagram.nodes
  rw [List.Nodup, List.pairwise_map, List.pairwise_filterMap, List.pairwise_iff_getElem]
  intro i j hi hj hij n hn m hm hid
  obtain ⟨hfirst, _⟩ := Element.node?_eq_some_iff.mp hn
  obtain ⟨hsecond, hk⟩ := Element.node?_eq_some_iff.mp hm
  refine h j m (List.getElem?_eq_some_iff.mpr ⟨hj, hsecond⟩) hk ?_
  -- the first of the two boxes bears the id
  refine List.mem_take_iff_getElem.mpr ⟨i, ?_, ?_⟩
  · rw [Diagram.ids, List.length_map]
    exact lt_min hij hi
  · simp only [Diagram.ids, List.getElem_map, hfirst]
    exact hid

/-- The size that a box is drawn with. -/
def Node.extent (settings : LayoutSettings K) (n : Node K) : Size K :=
  n.size.getD settings.boxSize

/-- The chart knows the size of every box. -/
theorem Diagram.OwnIds.sizeOf_eq {d : Diagram K} (h : d.OwnIds) (settings : LayoutSettings K)
    {n : Node K} (hn : n ∈ d.nodes) : Chart.sizeOf settings d n.id = n.extent settings := by
  unfold Chart.sizeOf Node.extent
  rw [find?_key_reverse_of_mem h.nodup hn]
  rfl

/-- The boxes of the chart are the ids and sizes of the boxes. -/
theorem Diagram.OwnIds.mem_boxes_iff {d : Diagram K} (h : d.OwnIds) (settings : LayoutSettings K)
    {b : String × Size K} :
    b ∈ (Chart.ofDiagram settings d).boxes ↔ ∃ n ∈ d.nodes, b = (n.id, n.extent settings) := by
  unfold Chart.ofDiagram
  dsimp only
  rw [List.mem_map]
  constructor
  · rintro ⟨id, hid, rfl⟩
    obtain ⟨n, hn, rfl⟩ := List.mem_map.mp (List.mem_eraseDups.mp hid)
    exact ⟨n, hn, by rw [h.sizeOf_eq settings hn]⟩
  · rintro ⟨n, hn, rfl⟩
    exact ⟨n.id, List.mem_eraseDups.mpr (List.mem_map_of_mem hn), by rw [h.sizeOf_eq settings hn]⟩

/-! ## Boxes at their corners -/

/-- Where a box has an id of its own, it is moved to the corner of its id. -/
theorem Diagram.OwnIds.nodes_moveBoxes {d : Diagram K} (h : d.OwnIds)
    {corners : List (String × Point K)} (hcorners : d.Cornered corners) :
    (d.moveBoxes corners).nodes =
      d.nodes.map fun n => { n with position := cornerIn corners n.id } := by
  have hplaces : (d.moveBoxes corners).elements.map Element.node? =
      d.elements.map fun e => e.node?.map fun n =>
        { n with position := cornerIn corners n.id } := by
    refine List.ext_getElem? fun i => ?_
    rw [List.getElem?_map, List.getElem?_map, getElem?_moveBoxes, Option.map_map]
    cases he : d.elements[i]? with
    | none => rfl
    | some e =>
      rw [Option.map_some, Option.map_some, Function.comp_apply]
      cases hnode : e.node? with
      | none =>
        -- whether it is met for the first time or not, it stays
        rw [moveIn_of_node?_none hnode, ite_self, hnode]
        rfl
      | some n =>
        obtain ⟨rfl, hk⟩ := Element.node?_eq_some_iff.mp hnode
        have hfirst : (Element.node n).id ∉ d.ids.take i := h i n he hk
        have hmem : n ∈ d.nodes := mem_nodes.mpr ⟨List.mem_of_getElem? he, hk⟩
        obtain ⟨corner, hcorner⟩ := Option.isSome_iff_exists.mp (hcorners n hmem)
        rw [if_neg hfirst, moveIn_box hk hcorner, Option.map_some, hcorner]
        exact congrArg some (Element.node?_eq_some_iff.mpr ⟨rfl, hk⟩)
  -- the boxes are told by what stands at each place
  have hnodes : ∀ es : List (Element K), es.filterMap Element.node? =
      (es.map Element.node?).filterMap fun n => n := by
    intro es
    rw [List.filterMap_map]
    rfl
  unfold Diagram.nodes
  rw [hnodes, hplaces, List.filterMap_map, List.map_filterMap]
  rfl

section

variable [Add K] [Sub K] [Div K] [LT K] [DecidableLT K] [OfNat K 0] [OfNat K 2]
  {engine : Engine K} {settings : LayoutSettings K} {d : Diagram K}
  {corners : List (String × Point K)}

/-- With a partition, a corner in the list is the corner of its id. -/
theorem Engine.Partitions.cornerIn_eq (hpart : engine.Partitions)
    (hcorners : engine.corners settings d = .ok corners) {p : String × Point K}
    (hp : p ∈ corners) : cornerIn corners p.1 = some p.2 := by
  have hnodup : (corners.map (·.1)).Nodup :=
    (hpart.ids_corners hcorners).nodup_iff.mpr (nodup_eraseDups _)
  unfold cornerIn
  rw [find?_key_reverse_of_mem hnodup hp]
  rfl

variable [Neg K] [LE K] [DecidableLE K] [OfNat K 1]

/-- In a diagram that has been drawn anew, all boxes stand at the corners of their ids. -/
theorem Diagram.OwnIds.nodes_redraw (h : d.OwnIds) (hcorners : d.Cornered corners)
    (settings : LayoutSettings K) :
    (d.redraw settings corners).nodes = d.nodes.map fun n =>
      { n with position := cornerIn corners n.id } := by
  rw [ClassAtlas.nodes_redraw]
  exact h.nodes_moveBoxes hcorners

end

/-! ## Boxes in a row -/

/-- The boxes of a diagram that belong to a component. -/
def Diagram.nodesOf (d : Diagram K) (c : Chart K) : List (Node K) :=
  d.nodes.filter fun n => decide (n.id ∈ c.boxes.map (·.1))

theorem mem_nodesOf {d : Diagram K} {c : Chart K} {n : Node K} :
    n ∈ d.nodesOf c ↔ n ∈ d.nodes ∧ n.id ∈ c.boxes.map (·.1) := by
  rw [Diagram.nodesOf, List.mem_filter, decide_eq_true_iff]

/-- The top left corner of a box that has been put in its place. -/
def Node.corner [OfNat K 0] (n : Node K) : Point K := n.position.getD ⟨0, 0⟩

/-- The boxes of a diagram stand at given corners, and are the members of given components. -/
structure Stands (settings : LayoutSettings K) (corner : String → Point K)
    (components : List (Chart K)) (d : Diagram K) : Prop where
  /-- Every box stands at the corner of its id. -/
  placed : ∀ n ∈ d.nodes, n.position = some (corner n.id)
  /-- The members of a component are the ids and sizes of its boxes. -/
  members : ∀ c ∈ components, ∀ b, b ∈ c.boxes ↔ ∃ n ∈ d.nodesOf c, b = (n.id, n.extent settings)
  /-- Every box belongs to a component. -/
  covered : ∀ n ∈ d.nodes, ∃ c ∈ components, n ∈ d.nodesOf c

namespace Stands

variable {settings : LayoutSettings K} {corner : String → Point K} {components : List (Chart K)}
  {d : Diagram K} {c : Chart K} {n : Node K}

theorem mem_boxes (h : Stands settings corner components d) (hc : c ∈ components)
    (hn : n ∈ d.nodesOf c) : (n.id, n.extent settings) ∈ c.boxes :=
  (h.members c hc _).mpr ⟨n, hn, rfl⟩

variable [Field K]

theorem corner_eq (h : Stands settings corner components d) (hn : n ∈ d.nodesOf c) :
    n.corner = corner n.id := by
  rw [Node.corner, h.placed n (mem_nodesOf.mp hn).1]
  rfl

/-- What is said of the corners and sizes in a component is said of its boxes. -/
theorem exists_iff (h : Stands settings corner components d) (hc : c ∈ components)
    (p : Point K → Size K → Prop) :
    (∃ b ∈ c.boxes, p (corner b.1) b.2) ↔ ∃ n ∈ d.nodesOf c, p n.corner (n.extent settings) := by
  constructor
  · rintro ⟨b, hb, hp⟩
    obtain ⟨n, hn, rfl⟩ := (h.members c hc b).mp hb
    exact ⟨n, hn, by rwa [h.corner_eq hn]⟩
  · rintro ⟨n, hn, hp⟩
    exact ⟨_, h.mem_boxes hc hn, by rwa [← h.corner_eq hn]⟩

theorem tops_eq (h : Stands settings corner components d) (hc : c ∈ components) :
    {y | ∃ b ∈ c.boxes, (corner b.1).y = y} = {y | ∃ n ∈ d.nodesOf c, n.corner.y = y} :=
  Set.ext fun y => h.exists_iff hc fun p _ => p.y = y

/-- A box at the corner that a center gives it has this center. -/
theorem center_eq (h : Stands settings corner components d) (hn : n ∈ d.nodesOf c) {p : Point K}
    (hp : corner n.id = (n.extent settings).cornerAt p) : (n.box settings).center = p := by
  have hbox : n.box settings = (n.extent settings).boxAt n.corner := rfl
  rw [hbox, h.corner_eq hn, hp]
  simp [Size.boxAt, Size.cornerAt]

end Stands

section

variable [Field K] [LinearOrder K] {settings : LayoutSettings K} {d : Diagram K}

/-- The components of a diagram stand side by side in it. -/
structure SideBySide (settings : LayoutSettings K) (drawing : Drawing K)
    (components : List (Chart K)) (d : Diagram K) : Prop where
  /-- Every box has a place. -/
  placed : ∀ n ∈ d.nodes, n.position = some n.corner
  /-- The left edge of the diagram is at the padding. -/
  left : IsLeast {x | ∃ n ∈ d.nodes, n.corner.x = x} settings.padding
  /-- The top edge of the diagram is at the padding. -/
  top : IsLeast {y | ∃ n ∈ d.nodes, n.corner.y = y} settings.padding
  /-- So is the top edge of each component. -/
  tops : ∀ c ∈ components, IsLeast {y | ∃ n ∈ d.nodesOf c, n.corner.y = y} settings.padding
  /-- Each component ends, with a gap, before every later one begins. -/
  apart : components.Pairwise fun c c' => ∀ n ∈ d.nodesOf c, ∀ n' ∈ d.nodesOf c',
    n.corner.x + (n.extent settings).width + settings.boxGap ≤ n'.corner.x
  /-- Between neighbouring components the gap is no wider. -/
  touching : components.IsChain fun c c' => ∃ n ∈ d.nodesOf c, ∃ n' ∈ d.nodesOf c',
    n.corner.x + (n.extent settings).width + settings.boxGap = n'.corner.x
  /-- Two boxes of a component stand to each other as they were drawn. -/
  rigid : ∀ c ∈ components, ∃ centers, drawing settings c = .ok centers ∧
    ∀ n ∈ d.nodesOf c, ∀ n' ∈ d.nodesOf c,
      (n.box settings).center.x - (n'.box settings).center.x =
          (centerOf centers n.id).x - (centerOf centers n'.id).x ∧
        (n.box settings).center.y - (n'.box settings).center.y =
          (centerOf centers n.id).y - (centerOf centers n'.id).y

/-- **A row of corners is a row of boxes.** -/
theorem Stands.sideBySide {corner : String → Point K} {drawing : Drawing K}
    {components : List (Chart K)} (h : Stands settings corner components d)
    (hrow : InRow settings drawing corner settings.padding components)
    (hsome : components ≠ []) : SideBySide settings drawing components d := by
  -- the left edge is that of the first component, the top edge that of any
  obtain ⟨c₀, cs, rfl⟩ := List.exists_cons_of_ne_nil hsome
  have hc₀ : c₀ ∈ c₀ :: cs := List.mem_cons_self
  exact {
    placed := fun n hn => by
      obtain ⟨c, hc, hnc⟩ := h.covered n hn
      rw [h.corner_eq hnc]
      exact h.placed n hn
    left := by
      refine ⟨?_, ?_⟩
      · obtain ⟨n, hn, hx⟩ :=
          (h.exists_iff hc₀ fun p _ => p.x = settings.padding).mp (hrow.begins c₀ rfl)
        exact ⟨n, (mem_nodesOf.mp hn).1, hx⟩
      · rintro _ ⟨n, hn, rfl⟩
        obtain ⟨c, hc, hnc⟩ := h.covered n hn
        rw [h.corner_eq hnc]
        exact hrow.beyond c hc _ (h.mem_boxes hc hnc)
    top := by
      refine ⟨?_, ?_⟩
      · obtain ⟨n, hn, hy⟩ :=
          (h.exists_iff hc₀ fun p _ => p.y = settings.padding).mp (hrow.tops c₀ hc₀).1
        exact ⟨n, (mem_nodesOf.mp hn).1, hy⟩
      · rintro _ ⟨n, hn, rfl⟩
        obtain ⟨c, hc, hnc⟩ := h.covered n hn
        exact (h.tops_eq hc ▸ hrow.tops c hc).2 ⟨n, hnc, rfl⟩
    tops := fun c hc => h.tops_eq hc ▸ hrow.tops c hc
    apart := by
      refine hrow.apart.imp_of_mem fun hc hc' happart n hn n' hn' => ?_
      rw [h.corner_eq hn, h.corner_eq hn']
      exact happart _ (h.mem_boxes hc hn) _ (h.mem_boxes hc' hn')
    touching := by
      have htouching := hrow.touching
      rw [List.isChain_iff_getElem] at htouching ⊢
      intro i hi
      have hc := List.getElem_mem (l := c₀ :: cs) (n := i) (by omega)
      have hc' := List.getElem_mem (l := c₀ :: cs) hi
      obtain ⟨b, hb, b', hb', hx⟩ := htouching i hi
      obtain ⟨n, hn, rfl⟩ := (h.members _ hc b).mp hb
      obtain ⟨n', hn', rfl⟩ := (h.members _ hc' b').mp hb'
      exact ⟨n, hn, n', hn', by rw [h.corner_eq hn, h.corner_eq hn']; exact hx⟩
    rigid := by
      intro c hc
      obtain ⟨centers, hcenters, dx, dy, hshift⟩ := hrow.rigid c hc
      refine ⟨centers, hcenters, fun n hn n' hn' => ?_⟩
      rw [h.center_eq hn (hshift _ (h.mem_boxes hc hn)),
        h.center_eq hn' (hshift _ (h.mem_boxes hc hn'))]
      exact ⟨add_sub_add_right_eq_sub .., add_sub_add_right_eq_sub ..⟩ }

/-! ## Layouts -/

/-- The corners that a layout gives to ids are where the boxes stand in the end. -/
theorem stands_redraw {engine : Engine K} (hpart : engine.Partitions) (hids : d.OwnIds)
    (settings : LayoutSettings K) {corners : List (String × Point K)}
    (hcorners : d.Cornered corners) :
    Stands settings (fun id => (cornerIn corners id).getD ⟨0, 0⟩)
      (engine.components (Chart.ofDiagram settings d)) (d.redraw settings corners) := by
  have hnodes : ∀ m, m ∈ (d.redraw settings corners).nodes ↔ ∃ n ∈ d.nodes,
      { n with position := cornerIn corners n.id } = m := by
    intro m
    rw [hids.nodes_redraw hcorners, List.mem_map]
  have hchart := hpart _ (Chart.wellFormed_ofDiagram settings d)
  have hof : ∀ c ∈ engine.components (Chart.ofDiagram settings d), ∀ b ∈ c.boxes,
      ∃ n ∈ d.nodes, b = (n.id, n.extent settings) := fun c hc b hb =>
    (hids.mem_boxes_iff settings).mp (hchart.subset (List.mem_flatMap.mpr ⟨c, hc, hb⟩))
  exact {
    placed := by
      intro m hm
      obtain ⟨n, hn, rfl⟩ := (hnodes m).mp hm
      obtain ⟨corner, hcorner⟩ := Option.isSome_iff_exists.mp (hcorners n hn)
      show cornerIn corners n.id = _
      rw [hcorner]
      rfl
    members := by
      intro c hc b
      constructor
      · intro hb
        obtain ⟨n, hn, rfl⟩ := hof c hc b hb
        exact ⟨_, mem_nodesOf.mpr ⟨(hnodes _).mpr ⟨n, hn, rfl⟩, List.mem_map_of_mem hb⟩, rfl⟩
      · rintro ⟨m, hm, rfl⟩
        obtain ⟨hmem, hid⟩ := mem_nodesOf.mp hm
        obtain ⟨n, hn, rfl⟩ := (hnodes m).mp hmem
        obtain ⟨b, hb, heq⟩ := List.mem_map.mp hid
        obtain ⟨n', hn', rfl⟩ := hof c hc b hb
        -- the box of the component has the id of this one, and so its size
        have hsize := (hids.sizeOf_eq settings hn').symm
        rw [show n'.id = n.id from heq, hids.sizeOf_eq settings hn] at hsize
        rwa [hsize, show n'.id = n.id from heq] at hb
    covered := by
      intro m hm
      obtain ⟨n, hn, rfl⟩ := (hnodes m).mp hm
      have hbox := hchart.mem_iff.mpr ((hids.mem_boxes_iff settings).mpr ⟨n, hn, rfl⟩)
      obtain ⟨c, hc, hb⟩ := List.mem_flatMap.mp hbox
      exact ⟨c, hc, mem_nodesOf.mpr ⟨hm, List.mem_map_of_mem hb⟩⟩ }

/-- **Components are laid out side by side.** Let the boxes have ids of their own and let none be
narrower than nothing, nor the gap. Wherever an engine draws the boxes of the components, the
diagram begins at the padding on the left and at the top, each component at the top; components
follow each other from left to right with the gap between neighbours, and no box reaches into the
gap; and each component is drawn as its engine drew it. -/
theorem components_side_by_side [IsStrictOrderedRing K] (engine : Engine K)
    (hpart : engine.Partitions) (hfull : engine.Occupied) (settings : LayoutSettings K)
    (hgap : 0 ≤ settings.boxGap) (d : Diagram K) (hsome : d.nodes ≠ []) (hids : d.OwnIds)
    (hwide : ∀ n ∈ d.nodes, 0 ≤ (n.extent settings).width) (hdraws : engine.Draws settings d) :
    ∃ x, d.arrangeWith engine settings = .ok x ∧
      SideBySide settings engine.drawing (engine.components (Chart.ofDiagram settings d)) x := by
  obtain ⟨x, hx⟩ := exists_arrangeWith_iff.mpr hdraws
  refine ⟨x, hx, ?_⟩
  obtain ⟨corners, hplaces, rfl⟩ := arrangeWith_eq_ok_iff.mp hx
  have hcorners := hplaces.corners_eq hsome
  have hcornered := hpart.cornered hplaces
  have hstands := stands_redraw hpart hids settings hcornered
  have hwidth : ∀ c ∈ engine.components (Chart.ofDiagram settings d), ∀ b ∈ c.boxes,
      0 ≤ b.2.width := by
    intro c hc b hb
    have hchart := (hpart _ (Chart.wellFormed_ofDiagram settings d)).subset
      (List.mem_flatMap.mpr ⟨c, hc, hb⟩)
    obtain ⟨n, hn, rfl⟩ := (hids.mem_boxes_iff settings).mp hchart
    exact hwide n hn
  -- any box is in some component
  have hcomponents : engine.components (Chart.ofDiagram settings d) ≠ [] := by
    obtain ⟨n, hn⟩ := List.exists_mem_of_ne_nil _ hsome
    have hplace : { n with position := cornerIn corners n.id } ∈
        (d.redraw settings corners).nodes := by
      rw [hids.nodes_redraw hcornered]
      exact List.mem_map_of_mem hn
    obtain ⟨c, hc, _⟩ := hstands.covered _ hplace
    exact List.ne_nil_of_mem hc
  refine hstands.sideBySide (inRow_placeComponents hgap ?_ hwidth hcorners fun p hp => ?_)
    hcomponents
  · exact hfull _ (Chart.wellFormed_ofDiagram settings d)
  · rw [hpart.cornerIn_eq hcorners hp]
    rfl

end

/-- A yard with a wide and a narrow box that are linked, and one that stands for itself. -/
def yard : Diagram ℚ :=
  { id := "d"
    name := "Yard"
    created := 0
    updated := 0
    elements :=
      [.node { id := "1", kind := .classBox, position := none, size := some ⟨300, 20⟩ },
       .node { id := "2", kind := .classBox, position := some ⟨7, 7⟩, size := some ⟨20, 90⟩ },
       .node { id := "3", kind := .classBox, position := some ⟨5, 5⟩ },
       .arrow { id := "4", kind := .inheritance, source := "2", target := "1" }] }

theorem components_side_by_side_yard :
    stairsEngine.Partitions ∧ stairsEngine.Occupied ∧ yard.nodes ≠ [] ∧ yard.OwnIds ∧
      (∀ n ∈ yard.nodes, 0 ≤ (n.extent narrowSettings).width) ∧
      stairsEngine.Draws narrowSettings yard ∧
      (∃ x, yard.arrangeWith stairsEngine narrowSettings = .ok x ∧
        SideBySide narrowSettings stairsEngine.drawing
          (stairsEngine.components (Chart.ofDiagram narrowSettings yard)) x) ∧
      (stairsEngine.components (Chart.ofDiagram narrowSettings yard)).map
          (fun c => c.boxes.map (·.1)) = [["1", "2"], ["3"]] ∧
      (yard.arrangeWith stairsEngine narrowSettings).toOption.map
          (fun x => x.nodes.map (·.position)) =
        some [some ⟨5, 110⟩, some ⟨245, 5⟩, some ⟨315, 5⟩] := by
  have hids : yard.OwnIds := ownIds_of_nodup (by decide)
  have hwide : ∀ n ∈ yard.nodes, 0 ≤ (n.extent narrowSettings).width := by decide +kernel
  have hdraws := draws_stairsEngine narrowSettings yard
  exact ⟨partitions_stairsEngine, occupied_stairsEngine, by decide, hids, hwide, hdraws,
    components_side_by_side stairsEngine partitions_stairsEngine occupied_stairsEngine
      narrowSettings (by decide +kernel) yard (by decide) hids hwide hdraws,
    by decide +kernel, by decide +kernel⟩

end ClassAtlas
