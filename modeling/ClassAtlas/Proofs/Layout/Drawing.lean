import ClassAtlas.Proofs.Diagram.Ends
import ClassAtlas.Proofs.Layout.Components

/-!
# What a layout draws

A layout draws the boxes that their ids find and the arrows that run between two boxes. A box of
which another element has the id is never looked at, since corners are given by ids and an id finds
the first element that bears it; and an arrow that has lost one of its ends keeps the line it had.

The corners are those of the components, and the corner of a box is the one given to its id last. An
engine whose components are a partition of the boxes gives every box one. It need not be able to
draw all components; a layout is given exactly if it is, or if there are no boxes.
-/

namespace ClassAtlas

variable {K : Type}

/-! ## Elements that are drawn -/

/-- A layout draws the element at a place of a diagram. -/
def Diagram.Redraws (d : Diagram K) (i : Nat) : Element K → Prop
  | .node n => n.kind.isKnown = true ∧ n.id ∉ d.ids.take i
  | .arrow a => a.kind.isKnown = true ∧ (d.node? a.source).isSome ∧ (d.node? a.target).isSome
  | .note _ => False

instance (d : Diagram K) (i : Nat) : (e : Element K) → Decidable (d.Redraws i e)
  | .node _ => inferInstanceAs (Decidable (_ ∧ _))
  | .arrow _ => inferInstanceAs (Decidable (_ ∧ _ ∧ _))
  | .note _ => inferInstanceAs (Decidable False)

theorem redraws_node {d : Diagram K} {i : Nat} {n : Node K} :
    d.Redraws i (.node n) ↔ n.kind.isKnown = true ∧ n.id ∉ d.ids.take i := Iff.rfl

theorem redraws_arrow {d : Diagram K} {i : Nat} {a : Arrow K} :
    d.Redraws i (.arrow a) ↔
      a.kind.isKnown = true ∧ (d.node? a.source).isSome ∧ (d.node? a.target).isSome := Iff.rfl

/-- An element becomes the same box in another place, or the same arrow with another line. -/
inductive Element.Redrawn : Element K → Element K → Prop
  | box (n : Node K) (corner : Point K) :
    Redrawn (.node n) (.node { n with position := some corner })
  | line (a : Arrow K) (points : List (Point K)) :
    Redrawn (.arrow a) (.arrow { a with points := some points })

theorem Element.Redrawn.unplaced_eq {e e' : Element K} (h : e.Redrawn e') :
    e'.unplaced = e.unplaced := by
  cases h with
  | box n corner => rfl
  | line a points => rfl

/-! ## Boxes at corners -/

@[simp] theorem moveTo_id (corner : Point K) (e : Element K) : (e.moveTo corner).id = e.id := by
  rw [← unplaced_id, unplaced_moveTo, unplaced_id]

theorem moveTo_moveTo (corner corner' : Point K) (e : Element K) :
    (e.moveTo corner).moveTo corner' = e.moveTo corner' := by
  unfold Element.moveTo
  cases e with
  | arrow a => rfl
  | note t => rfl
  | node n => cases hk : n.kind.isKnown <;> simp [Element.node?, hk]

theorem node?_moveTo (corner : Point K) (e : Element K) :
    (e.moveTo corner).node? = e.node?.map fun n => { n with position := some corner } := by
  unfold Element.moveTo
  cases e with
  | arrow a => rfl
  | note t => rfl
  | node n => cases hk : n.kind.isKnown <;> simp [Element.node?, hk]

/-- A change of the first element with an id, told place by place. -/
theorem getElem?_modifyFirst (id : String) (f : Element K → Element K) (es : List (Element K))
    (i : Nat) :
    (modifyFirst id f es)[i]? =
      es[i]?.map fun e => if e.id = id ∧ e.id ∉ (es.map Element.id).take i then f e else e := by
  induction es generalizing i with
  | nil => rfl
  | cons e es ih =>
    rw [modifyFirst]
    by_cases hid : e.id = id
    · rw [if_pos hid]
      cases i with
      | zero => simp [hid]
      | succ i =>
        -- behind it the id has been met
        have hmet : ∀ e' : Element K,
            ¬ (e'.id = id ∧ e'.id ∉ ((e :: es).map Element.id).take (i + 1)) := by
          rintro e' ⟨rfl, hnot⟩
          exact hnot (by simp [hid])
        simp only [List.getElem?_cons_succ, if_neg (hmet _), Option.map_id']
    · rw [if_neg hid]
      cases i with
      | zero => simp [hid]
      | succ i =>
        rw [List.getElem?_cons_succ, List.getElem?_cons_succ, ih]
        congr 1
        funext e'
        by_cases hid' : e'.id = id
        · have hne : id ≠ e.id := fun h => hid h.symm
          simp [hid', hne]
        · simp [hid']

/-- The corner that a list of corners gives to an id. -/
def cornerIn (corners : List (String × Point K)) (id : String) : Option (Point K) :=
  (corners.reverse.find? (·.1 == id)).map (·.2)

theorem cornerIn_cons (corner : String × Point K) (corners : List (String × Point K))
    (id : String) :
    cornerIn (corner :: corners) id =
      (cornerIn corners id).or (if corner.1 = id then some corner.2 else none) := by
  unfold cornerIn
  rw [List.reverse_cons, List.find?_append]
  cases corners.reverse.find? (·.1 == id) with
  | some c => rfl
  | none => by_cases h : corner.1 = id <;> simp [h]

theorem cornerIn_isSome {corners : List (String × Point K)} {id : String}
    (h : id ∈ corners.map (·.1)) : (cornerIn corners id).isSome := by
  obtain ⟨corner, hcorner, rfl⟩ := List.mem_map.mp h
  unfold cornerIn
  rw [Option.isSome_map, List.find?_isSome]
  exact ⟨corner, List.mem_reverse.mpr hcorner, by simp⟩

theorem ids_moveBoxes (d : Diagram K) (corners : List (String × Point K)) :
    (d.moveBoxes corners).ids = d.ids := by
  have h := congrArg (List.map Element.id) (unplaced_moveBoxes d corners)
  simpa [List.map_map, Function.comp_def, Diagram.ids] using h

/-- An element at the corner that is given to its id. -/
def Element.moveIn (corners : List (String × Point K)) (e : Element K) : Element K :=
  (cornerIn corners e.id).elim e e.moveTo

theorem moveIn_of_node?_none {e : Element K} (h : e.node? = none)
    (corners : List (String × Point K)) : e.moveIn corners = e := by
  have hstay : ∀ corner, e.moveTo corner = e := by
    intro corner
    unfold Element.moveTo
    rw [h]
  unfold Element.moveIn
  cases cornerIn corners e.id with
  | none => rfl
  | some corner => exact hstay corner

theorem moveIn_box {n : Node K} (hk : n.kind.isKnown = true) {corners : List (String × Point K)}
    {corner : Point K} (hcorner : cornerIn corners n.id = some corner) :
    (Element.node n).moveIn corners = .node { n with position := some corner } := by
  unfold Element.moveIn
  rw [show (Element.node n).id = n.id from rfl, hcorner]
  simp [Element.moveTo, Element.node?, hk]

theorem bare_moveBoxes (d : Diagram K) (corners : List (String × Point K)) :
    (d.moveBoxes corners).bare = d.bare := by
  unfold Diagram.moveBoxes
  induction corners generalizing d with
  | nil => rfl
  | cons corner corners ih => exact ih _

/-- What becomes of the element at a place when boxes are put at corners. -/
theorem getElem?_moveBoxes (d : Diagram K) (corners : List (String × Point K)) (i : Nat) :
    (d.moveBoxes corners).elements[i]? = d.elements[i]?.map fun e =>
      if e.id ∈ d.ids.take i then e else e.moveIn corners := by
  unfold Element.moveIn
  -- over the corners, since a box is moved once for each that has its id
  induction corners generalizing d with
  | nil =>
    show d.elements[i]? = _
    simp [cornerIn]
  | cons corner corners ih =>
    obtain ⟨id, corner⟩ := corner
    have hids : (d.modify id (·.moveTo corner)).ids = d.ids := ids_moveBoxes d [(id, corner)]
    rw [show d.moveBoxes ((id, corner) :: corners) =
      (d.modify id (·.moveTo corner)).moveBoxes corners from rfl, ih, hids]
    rw [show (d.modify id (·.moveTo corner)).elements = modifyFirst id (·.moveTo corner) d.elements
      from rfl, getElem?_modifyFirst, Option.map_map]
    congr 1
    funext e
    rw [Function.comp_apply, cornerIn_cons]
    by_cases hmet : e.id ∈ d.ids.take i
    · have hmet' : e.id ∈ (d.elements.map Element.id).take i := hmet
      simp [hmet, hmet']
    · have hmet' : e.id ∉ (d.elements.map Element.id).take i := hmet
      by_cases hid : e.id = id
      · subst hid
        cases hc : cornerIn corners e.id <;> simp [hmet, hmet', hc, moveTo_moveTo]
      · cases hc : cornerIn corners e.id <;> simp [hmet, hid, Ne.symm hid, hc]

theorem find?_modifyFirst {f : Element K → Element K} (hf : ∀ e, (f e).id = e.id) (id x : String)
    (es : List (Element K)) :
    (modifyFirst id f es).find? (fun e => e.id == x) =
      (es.find? fun e => e.id == x).map fun e => if x = id then f e else e := by
  induction es with
  | nil => rfl
  | cons e es ih =>
    rw [modifyFirst]
    -- only the first one of an id is ever found, and that is the one modified
    by_cases hid : e.id = id
    · rw [if_pos hid]
      by_cases hx : e.id = x
      · rw [List.find?_cons_of_pos (by simp [hf, hx]), List.find?_cons_of_pos (by simp [hx])]
        simp [← hx, hid]
      · rw [List.find?_cons_of_neg (by simp [hf, hx]), List.find?_cons_of_neg (by simp [hx])]
        have hne : x ≠ id := fun h => hx (hid.trans h.symm)
        simp [hne]
    · rw [if_neg hid]
      by_cases hx : e.id = x
      · rw [List.find?_cons_of_pos (by simp [hx]), List.find?_cons_of_pos (by simp [hx])]
        have hne : x ≠ id := fun h => hid (hx.trans h)
        simp [hne]
      · rw [List.find?_cons_of_neg (by simp [hx]), List.find?_cons_of_neg (by simp [hx]), ih]

/-- The box that an id finds when boxes are put at corners. -/
theorem node?_moveBoxes (d : Diagram K) (corners : List (String × Point K)) (x : String) :
    (d.moveBoxes corners).node? x = (d.node? x).map fun n =>
      (cornerIn corners x).elim n fun corner => { n with position := some corner } := by
  induction corners generalizing d with
  | nil =>
    show d.node? x = _
    simp [cornerIn]
  | cons corner corners ih =>
    obtain ⟨id, corner⟩ := corner
    -- one corner moves one box; the box keeps its id and is found again for the next corner
    have hstep : (d.modify id (·.moveTo corner)).node? x =
        (d.node? x).map fun n => if x = id then { n with position := some corner } else n := by
      show (List.find? _ (modifyFirst id (·.moveTo corner) d.elements)).bind Element.node? = _
      rw [find?_modifyFirst (moveTo_id corner), Option.bind_map, Diagram.node?, Option.map_bind]
      congr 1
      funext e
      by_cases hx : x = id
      · simp [hx, node?_moveTo]
      · simp [hx]
    rw [show d.moveBoxes ((id, corner) :: corners) =
      (d.modify id (·.moveTo corner)).moveBoxes corners from rfl, ih, hstep, Option.map_map]
    congr 1
    funext n
    rw [Function.comp_apply, cornerIn_cons]
    by_cases hx : x = id
    · cases cornerIn corners x <;> simp [hx]
    · cases cornerIn corners x <;> simp [hx, Ne.symm hx]

/-- Every id that finds a box does so when boxes are put at corners. -/
theorem exists_node?_moveBoxes {d : Diagram K} (corners : List (String × Point K)) {x : String}
    (h : (d.node? x).isSome) : ∃ n, (d.moveBoxes corners).node? x = some n := by
  rw [← Option.isSome_iff_exists, node?_moveBoxes, Option.isSome_map]
  exact h

/-! ## Diagrams that are drawn anew -/

/-- Every box has a corner. -/
def Diagram.Cornered (d : Diagram K) (corners : List (String × Point K)) : Prop :=
  ∀ n ∈ d.nodes, (cornerIn corners n.id).isSome

section

variable [Add K] [Sub K] [Neg K] [Div K] [LT K] [DecidableLT K] [LE K] [DecidableLE K]
  [OfNat K 0] [OfNat K 1] [OfNat K 2] {settings : LayoutSettings K} {d : Diagram K}
  {corners : List (String × Point K)} {i : Nat}

theorem elements_redraw (settings : LayoutSettings K) (d : Diagram K)
    (corners : List (String × Point K)) :
    (d.redraw settings corners).elements =
      (d.moveBoxes corners).elements.map ((d.moveBoxes corners).reroute settings) := rfl

/-- A box that is drawn is put at the corner of its id. -/
theorem redraw_box (h : d.Cornered corners) (settings : LayoutSettings K) {n : Node K}
    (hn : d.elements[i]? = some (.node n)) (hdraw : d.Redraws i (.node n)) :
    ∃ corner, cornerIn corners n.id = some corner ∧
      (d.redraw settings corners).elements[i]? =
        some (.node { n with position := some corner }) := by
  obtain ⟨hk, hfirst⟩ := hdraw
  have hmem : n ∈ d.nodes := mem_nodes.mpr ⟨List.mem_of_getElem? hn, hk⟩
  obtain ⟨corner, hcorner⟩ := Option.isSome_iff_exists.mp (h n hmem)
  refine ⟨corner, hcorner, ?_⟩
  have hfirst' : ¬ (Element.node n).id ∈ d.ids.take i := hfirst
  rw [elements_redraw, List.getElem?_map, getElem?_moveBoxes, hn, Option.map_some,
    if_neg hfirst', moveIn_box hk hcorner]
  rfl

/-- Only an arrow between two boxes gets a new line. -/
theorem reroute_eq_self {e : Element K}
    (h : ∀ a, e.arrow? = some a → d.node? a.source = none ∨ d.node? a.target = none) :
    d.reroute settings e = e := by
  unfold Diagram.reroute
  cases harrow : e.arrow? with
  | none => rfl
  | some a =>
    rcases h a harrow with hnone | hnone
    · simp [hnone]
    · cases hsource : d.node? a.source <;> simp [hsource, hnone]

/-- An arrow that is drawn runs between the boxes at its ends, where these have been put. -/
theorem redraw_arrow (settings : LayoutSettings K) {a : Arrow K}
    (ha : d.elements[i]? = some (.arrow a)) (hk : a.kind.isKnown = true) {source target : Node K}
    (hsource : (d.moveBoxes corners).node? a.source = some source)
    (htarget : (d.moveBoxes corners).node? a.target = some target) :
    (d.redraw settings corners).elements[i]? = some (.arrow { a with
      points := some (routeBetween (source.box settings) (target.box settings)) }) := by
  have hstay := moveIn_of_node?_none (e := .arrow a) rfl corners
  rw [elements_redraw, List.getElem?_map, getElem?_moveBoxes, ha]
  simp [hstay, Diagram.reroute, Element.arrow?, hk, hsource, htarget]

/-- An element that is not drawn stays as it is. -/
theorem redraw_rest {e : Element K} (he : d.elements[i]? = some e) (hdraw : ¬ d.Redraws i e) :
    (d.redraw settings corners).elements[i]? = some e := by
  rw [elements_redraw, List.getElem?_map, getElem?_moveBoxes, he, Option.map_some,
    Option.map_some]
  have hstay : (if e.id ∈ d.ids.take i then e else e.moveIn corners) = e := by
    split
    · rfl
    · rename_i hfirst
      refine moveIn_of_node?_none ?_ corners
      cases e with
      | node n =>
        cases hk : n.kind.isKnown with
        | true => exact absurd ⟨hk, hfirst⟩ hdraw
        | false => simp [Element.node?, hk]
      | arrow a => rfl
      | note t => rfl
  -- one of the ends of an arrow that is not drawn finds no box, before and after
  rw [hstay, reroute_eq_self]
  intro a harrow
  obtain ⟨rfl, hk⟩ := Element.arrow?_eq_some_iff.mp harrow
  rw [node?_moveBoxes, node?_moveBoxes, Option.map_eq_none_iff, Option.map_eq_none_iff]
  by_contra hends
  rw [not_or, ← ne_eq, ← ne_eq, Option.ne_none_iff_isSome, Option.ne_none_iff_isSome] at hends
  exact hdraw ⟨hk, hends⟩

theorem redraw_none (h : d.elements[i]? = none) :
    (d.redraw settings corners).elements[i]? = none := by
  rw [elements_redraw, List.getElem?_map, getElem?_moveBoxes, h]
  rfl

/-- **What becomes of the element at a place.** -/
theorem redraw_cases (h : d.Cornered corners) (settings : LayoutSettings K) {e : Element K}
    (he : d.elements[i]? = some e) :
    ∃ e', (d.redraw settings corners).elements[i]? = some e' ∧
      if d.Redraws i e then e.Redrawn e' else e' = e := by
  -- boxes get their corner and arrows their route; whatever is not drawn is left alone
  by_cases hdraw : d.Redraws i e
  · cases e with
    | note t => exact absurd hdraw id
    | node n =>
      obtain ⟨corner, _, hbox⟩ := redraw_box h settings he hdraw
      exact ⟨_, hbox, by rw [if_pos hdraw]; exact .box n corner⟩
    | arrow a =>
      obtain ⟨hk, hsource, htarget⟩ := hdraw
      obtain ⟨source, hs⟩ := exists_node?_moveBoxes corners hsource
      obtain ⟨target, ht⟩ := exists_node?_moveBoxes corners htarget
      exact ⟨_, redraw_arrow settings he hk hs ht, by
        rw [if_pos ⟨hk, hsource, htarget⟩]; exact .line a _⟩
  · exact ⟨e, redraw_rest he hdraw, by rw [if_neg hdraw]⟩

theorem bare_redraw (settings : LayoutSettings K) (d : Diagram K)
    (corners : List (String × Point K)) : (d.redraw settings corners).bare = d.bare :=
  bare_moveBoxes d _

/-- Where there are no boxes, nothing is drawn. -/
theorem redraw_of_nodes_nil (h : d.nodes = []) (settings : LayoutSettings K)
    (corners : List (String × Point K)) : d.redraw settings corners = d := by
  have hnode (x : String) : d.node? x = none := by
    refine Option.eq_none_iff_forall_ne_some.mpr fun n hn => ?_
    exact absurd (h ▸ (of_node? hn).1) List.not_mem_nil
  refine Diagram.eq_of_bare (bare_redraw settings d corners) (List.ext_getElem? fun i => ?_)
  cases he : d.elements[i]? with
  | none => exact redraw_none he
  | some e =>
    refine redraw_rest he fun hdraw => ?_
    cases e with
    | note t => exact hdraw
    | node n => exact absurd (h ▸ mem_nodes.mpr ⟨List.mem_of_getElem? he, hdraw.1⟩) List.not_mem_nil
    | arrow a => exact absurd hdraw.2.1 (by simp [hnode])

end

/-! ## Arranged diagrams -/

/-- An engine can draw every component of a diagram, or there is nothing to draw. -/
def Engine.Draws (engine : Engine K) (settings : LayoutSettings K) (d : Diagram K) : Prop :=
  d.nodes ≠ [] → ∀ c ∈ engine.components (Chart.ofDiagram settings d),
    ∃ centers, engine.drawing settings c = .ok centers

/-- An engine that can draw any chart can draw any diagram. -/
theorem Engine.draws_of_total {engine : Engine K}
    (h : ∀ settings c, ∃ centers, engine.drawing settings c = .ok centers)
    (settings : LayoutSettings K) (d : Diagram K) : engine.Draws settings d :=
  fun _ c _ => h settings c

theorem draws_rowEngine (settings : LayoutSettings Int) (d : Diagram Int) :
    rowEngine.Draws settings d := Engine.draws_of_total (fun _ _ => ⟨_, rfl⟩) settings d

section

variable [Add K] [Sub K] [Div K] [LT K] [DecidableLT K] [OfNat K 0] [OfNat K 2] {engine : Engine K}
  {settings : LayoutSettings K} {d : Diagram K} {corners : List (String × Point K)}

/-- The corners at which a layout puts the boxes of a diagram: those that the engine finds, and none
where there are no boxes. -/
def Engine.Places (engine : Engine K) (settings : LayoutSettings K) (d : Diagram K)
    (corners : List (String × Point K)) : Prop :=
  if d.nodes = [] then corners = [] else engine.corners settings d = .ok corners

theorem Engine.Places.corners_eq (h : engine.Places settings d corners) (hsome : d.nodes ≠ []) :
    engine.corners settings d = .ok corners := by
  rwa [Engine.Places, if_neg hsome] at h

theorem Engine.exists_places_iff :
    (∃ corners, engine.Places settings d corners) ↔ engine.Draws settings d := by
  unfold Engine.Places Engine.Draws
  by_cases hsome : d.nodes = []
  · simp [hsome]
  · simp only [if_neg hsome]
    exact exists_placeComponents_iff.trans ⟨fun h _ => h, fun h => h hsome⟩

/-- The ids that an engine gives corners to are those of the boxes. -/
theorem Engine.Partitions.ids_corners (h : engine.Partitions)
    (hcorners : engine.corners settings d = .ok corners) :
    (corners.map (·.1)).Perm (d.nodes.map (·.id)).eraseDups := by
  have hperm := (h _ (Chart.wellFormed_ofDiagram settings d)).map (·.1)
  rwa [Chart.ids_ofDiagram, ← ids_placeComponents hcorners] at hperm

theorem Engine.Partitions.cornered (h : engine.Partitions)
    (hplaces : engine.Places settings d corners) : d.Cornered corners := by
  intro n hn
  have hcorners := hplaces.corners_eq (List.ne_nil_of_mem hn)
  refine cornerIn_isSome ((h.ids_corners hcorners).mem_iff.mpr ?_)
  exact List.mem_eraseDups.mpr (List.mem_map_of_mem hn)

end

variable [Add K] [Sub K] [Neg K] [Div K] [LT K] [DecidableLT K] [LE K] [DecidableLE K]
  [OfNat K 0] [OfNat K 1] [OfNat K 2] {engine : Engine K} {settings : LayoutSettings K}
  {d x : Diagram K}

/-- **A layout draws the diagram anew,** with its boxes where the engine places them. -/
theorem arrangeWith_eq_ok_iff : d.arrangeWith engine settings = .ok x ↔
    ∃ corners, engine.Places settings d corners ∧ d.redraw settings corners = x := by
  unfold Diagram.arrangeWith Engine.Places
  by_cases hsome : d.nodes = []
  · simp [hsome, redraw_of_nodes_nil hsome]
  · simp only [List.isEmpty_iff, if_neg hsome]
    cases engine.corners settings d <;> simp

/-- **A layout is given exactly if the engine can draw all components.** -/
theorem exists_arrangeWith_iff :
    (∃ x, d.arrangeWith engine settings = .ok x) ↔ engine.Draws settings d := by
  rw [← Engine.exists_places_iff]
  simp only [arrangeWith_eq_ok_iff]
  exact ⟨fun ⟨_, corners, h, _⟩ => ⟨corners, h⟩, fun ⟨corners, h⟩ => ⟨_, corners, h, rfl⟩⟩

/-- A layout that is not given names the diagram, and the reason why a component cannot be drawn. -/
theorem of_arrangeWith_eq_error {failure : Failure}
    (h : d.arrangeWith engine settings = .error failure) :
    ∃ c cause, engine.drawing settings c = .error cause ∧
      failure = .layoutFailed d.id cause := by
  unfold Diagram.arrangeWith at h
  split at h
  · cases h
  · cases hcorners : engine.corners settings d with
    | ok corners =>
      rw [hcorners] at h
      cases h
    | error cause =>
      rw [hcorners] at h
      obtain ⟨c, -, hcause⟩ := of_placeComponents_eq_error hcorners
      exact ⟨c, cause, hcause, (Except.error.inj h).symm⟩

theorem bare_arrangeWith (h : d.arrangeWith engine settings = .ok x) : x.bare = d.bare := by
  obtain ⟨corners, -, rfl⟩ := arrangeWith_eq_ok_iff.mp h
  exact bare_redraw settings d corners

/-- But for places and lines, a layout leaves a diagram as it is. -/
theorem unplaced_arrangeWith (h : d.arrangeWith engine settings = .ok x) :
    x.unplaced = d.unplaced := by
  obtain ⟨corners, -, rfl⟩ := arrangeWith_eq_ok_iff.mp h
  exact Diagram.eq_of_bare (bare_redraw settings d corners) (unplaced_redraw settings d corners)

theorem elements_unplaced_arrangeWith (h : d.arrangeWith engine settings = .ok x) :
    x.elements.map Element.unplaced = d.elements.map Element.unplaced :=
  congrArg Diagram.elements (unplaced_arrangeWith h)

end ClassAtlas
