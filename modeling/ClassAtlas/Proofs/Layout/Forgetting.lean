import ClassAtlas.Proofs.Layout.Drawing

/-!
# A layout forgets what was drawn before

The chart of a diagram, and with it the corners of the boxes, is made of ids, sizes and links only.
Every element that a layout draws is given its place from the corners alone, so diagrams that differ
in what will be drawn anew are laid out alike. In particular, laying out a diagram once more changes
nothing. An engine that can draw the one can draw the other as well.
-/

namespace ClassAtlas

variable {K : Type}

/-! ## Diagrams without their drawings -/

theorem unplaced_unplaced (e : Element K) : e.unplaced.unplaced = e.unplaced := by
  cases e <;> rfl

theorem unplaced_ite (c : Prop) [Decidable c] (e : Element K) :
    (if c then e.unplaced else e).unplaced = e.unplaced := by
  split
  · exact unplaced_unplaced e
  · rfl

/-- The elements of a diagram without what a layout draws anew. -/
def Diagram.undrawn (d : Diagram K) : List (Element K) :=
  d.elements.mapIdx fun i e => if d.Redraws i e then e.unplaced else e

theorem getElem?_undrawn (d : Diagram K) (i : Nat) :
    d.undrawn[i]? = d.elements[i]?.map fun e => if d.Redraws i e then e.unplaced else e := by
  unfold Diagram.undrawn
  rw [List.getElem?_mapIdx]

theorem undrawn_unplaced (d : Diagram K) :
    d.undrawn.map Element.unplaced = d.elements.map Element.unplaced := by
  refine List.ext_getElem? fun i => ?_
  rw [List.getElem?_map, List.getElem?_map, getElem?_undrawn, Option.map_map]
  congr 1
  funext e
  exact unplaced_ite (d.Redraws i e) e

/-- With distinct ids every box of a known kind is drawn. -/
theorem redraws_box_iff {d : Diagram K} (hn : d.ids.Nodup) {i : Nat} {n : Node K}
    (hi : d.elements[i]? = some (.node n)) :
    d.Redraws i (.node n) ↔ n.kind.isKnown = true := by
  refine ⟨fun h => h.1, fun hk => ⟨hk, fun hmem => ?_⟩⟩
  have hid : d.ids[i]? = some n.id := by
    unfold Diagram.ids
    rw [List.getElem?_map, hi]
    rfl
  -- an id that is unique was not met before its own place
  obtain ⟨j, hj, hjid⟩ := List.mem_take_iff_getElem.mp hmem
  obtain ⟨hi', hiid⟩ := List.getElem?_eq_some_iff.mp hid
  have hji : j = i := (List.Nodup.getElem_inj_iff hn).mp (hjid.trans hiid.symm)
  omega

/-! ## Boxes and arrows without their drawings -/

/-- A box without its place. -/
def Node.cleared (n : Node K) : Node K := { n with position := none }

/-- An arrow without its line. -/
def Arrow.cleared (a : Arrow K) : Arrow K := { a with points := none }

theorem node?_unplaced (e : Element K) : e.unplaced.node? = e.node?.map Node.cleared := by
  cases e with
  | arrow a => rfl
  | note t => rfl
  | node n => cases hk : n.kind.isKnown <;> simp [Element.node?, Element.unplaced, hk, Node.cleared]

theorem arrow?_unplaced (e : Element K) : e.unplaced.arrow? = e.arrow?.map Arrow.cleared := by
  cases e with
  | node n => rfl
  | note t => rfl
  | arrow a =>
    cases hk : a.kind.isKnown <;> simp [Element.arrow?, Element.unplaced, hk, Arrow.cleared]

section

variable {d d' : Diagram K}

/-- Diagrams that differ in places and lines only. -/
def Diagram.Alike (d d' : Diagram K) : Prop :=
  d.elements.map Element.unplaced = d'.elements.map Element.unplaced

theorem alike_of_undrawn (h : d.undrawn = d'.undrawn) : d.Alike d' := by
  unfold Diagram.Alike
  rw [← undrawn_unplaced, ← undrawn_unplaced, h]

theorem Diagram.Alike.nodes (h : d.Alike d') :
    d.nodes.map Node.cleared = d'.nodes.map Node.cleared := by
  have hnodes : ∀ d : Diagram K, d.nodes.map Node.cleared =
      (d.elements.map Element.unplaced).filterMap Element.node? := by
    intro d
    unfold Diagram.nodes
    rw [List.filterMap_map, List.map_filterMap]
    exact congrArg (List.filterMap · _) (funext fun e => (node?_unplaced e).symm)
  rw [hnodes d, hnodes d', h]

theorem Diagram.Alike.nodes_nil_iff (h : d.Alike d') : d.nodes = [] ↔ d'.nodes = [] := by
  rw [← List.map_eq_nil_iff (f := Node.cleared), h.nodes, List.map_eq_nil_iff]

theorem Diagram.Alike.arrows (h : d.Alike d') :
    d.arrows.map Arrow.cleared = d'.arrows.map Arrow.cleared := by
  have harrows : ∀ d : Diagram K, d.arrows.map Arrow.cleared =
      (d.elements.map Element.unplaced).filterMap Element.arrow? := by
    intro d
    unfold Diagram.arrows
    rw [List.filterMap_map, List.map_filterMap]
    exact congrArg (List.filterMap · _) (funext fun e => (arrow?_unplaced e).symm)
  rw [harrows d, harrows d', h]

theorem Diagram.Alike.cornered (h : d.Alike d') {corners : List (String × Point K)}
    (hcorners : d.Cornered corners) : d'.Cornered corners := by
  intro n hn
  obtain ⟨m, hm, heq⟩ := List.mem_map.mp (h.nodes ▸ List.mem_map_of_mem (f := Node.cleared) hn)
  have hid : m.cleared.id = n.cleared.id := congrArg Node.id heq
  exact (show m.id = n.id from hid) ▸ hcorners m hm

/-- The boxes that an id finds differ in their places only. -/
theorem Diagram.Alike.node? (h : d.Alike d') (x : String) :
    (d.node? x).map Node.cleared = (d'.node? x).map Node.cleared := by
  -- what is found without its place is found among the elements without theirs
  have hfind : ∀ d : Diagram K, (d.node? x).map Node.cleared =
      ((d.elements.map Element.unplaced).find? fun e => e.id == x).bind Element.node? := by
    intro d
    have hsame : ((fun e : Element K => e.id == x) ∘ Element.unplaced) = fun e => e.id == x := by
      funext e
      simp
    unfold Diagram.node? Diagram.find?
    rw [List.find?_map, Option.bind_map, Option.map_bind, hsame]
    exact congrArg _ (funext fun e => (node?_unplaced e).symm)
  rw [hfind d, hfind d', h]

/-- Where every box gets a corner, it does not matter where a box was before. -/
theorem Diagram.Alike.node?_moveBoxes (h : d.Alike d') {corners : List (String × Point K)}
    (hcorners : d.Cornered corners) (x : String) :
    (d.moveBoxes corners).node? x = (d'.moveBoxes corners).node? x := by
  -- every box gets a corner, so that nothing is left of the position it had
  have hput : ∀ d : Diagram K, d.Cornered corners → (d.moveBoxes corners).node? x =
      ((d.node? x).map Node.cleared).map fun n => { n with position := cornerIn corners x } := by
    intro d hcorners
    rw [ClassAtlas.node?_moveBoxes]
    cases hx : d.node? x with
    | none => rfl
    | some n =>
      obtain ⟨hn, rfl⟩ := of_node? hx
      obtain ⟨corner, hcorner⟩ := Option.isSome_iff_exists.mp (hcorners n hn)
      simp [hcorner, Node.cleared]
  rw [hput d hcorners, hput d' (h.cornered hcorners), h.node?]

theorem Diagram.Alike.ids (h : d.Alike d') : d.ids = d'.ids := by
  rw [← ids_unplaced d, ← ids_unplaced d']
  exact congrArg (List.map Element.id) h

/-- Whether an element is drawn does not depend on places. -/
theorem Diagram.Alike.redraws_iff (h : d.Alike d') {e e' : Element K}
    (he : e.unplaced = e'.unplaced) (i : Nat) : d.Redraws i e ↔ d'.Redraws i e' := by
  -- an arrow is drawn if both its boxes are found, wherever they are
  have hfound : ∀ x, (d.node? x).isSome = (d'.node? x).isSome := by
    intro x
    have hx := congrArg Option.isSome (h.node? x)
    rwa [Option.isSome_map, Option.isSome_map] at hx
  cases e' with
  | note t =>
    cases e <;> simp_all [Element.unplaced, Diagram.Redraws]
  | node n =>
    obtain ⟨m, rfl, hid, hkind, _⟩ := node_of_unplaced he
    rw [redraws_node, redraws_node, h.ids, hid, hkind]
  | arrow a =>
    obtain ⟨b, rfl, hkind, hsource, htarget⟩ := arrow_of_unplaced he
    rw [redraws_arrow, redraws_arrow, hkind, hsource, htarget, hfound, hfound]

/-! ## Charts -/

/-- A chart knows nothing of places. -/
theorem Diagram.Alike.ofDiagram (h : d.Alike d') (settings : LayoutSettings K) :
    Chart.ofDiagram settings d = Chart.ofDiagram settings d' := by
  have hids : d.nodes.map (·.id) = d'.nodes.map (·.id) := by
    have hmap := congrArg (List.map Node.id) h.nodes
    rwa [List.map_map, List.map_map] at hmap
  -- a size is looked up by id, and positions have no part in it
  have hsize : Chart.sizeOf settings d = Chart.sizeOf settings d' := by
    funext x
    have hlast : ∀ d : Diagram K, (d.nodes.reverse.find? fun n => n.id == x).bind (·.size) =
        ((d.nodes.map Node.cleared).reverse.find? fun n => n.id == x).bind (·.size) := by
      intro d
      rw [← List.map_reverse, List.find?_map, Option.bind_map]
      rfl
    unfold Chart.sizeOf
    rw [hlast d, hlast d', h.nodes]
  -- links are made from the ends of arrows, not from their lines
  have hlinks : ∀ ids, d.arrows.filterMap (Chart.link? ids) =
      d'.arrows.filterMap (Chart.link? ids) := by
    intro ids
    have hclear : ∀ d : Diagram K, d.arrows.filterMap (Chart.link? ids) =
        (d.arrows.map Arrow.cleared).filterMap (Chart.link? ids) := by
      intro d
      rw [List.filterMap_map]
      rfl
    rw [hclear d, hclear d', h.arrows]
  unfold Chart.ofDiagram
  dsimp only
  rw [hids, hsize, hlinks]

end

/-! ## Layouts -/

section

variable [Add K] [Sub K] [Div K] [LT K] [DecidableLT K] [OfNat K 0] [OfNat K 2] {d d' : Diagram K}
  {corners : List (String × Point K)}

theorem Diagram.Alike.places (h : d.Alike d') {engine : Engine K} {settings : LayoutSettings K}
    (hplaces : engine.Places settings d corners) : engine.Places settings d' corners := by
  unfold Engine.Places Engine.corners at *
  rwa [← h.ofDiagram, ← if_congr h.nodes_nil_iff rfl rfl]

end

variable [Add K] [Sub K] [Neg K] [Div K] [LT K] [DecidableLT K] [LE K] [DecidableLE K]
  [OfNat K 0] [OfNat K 1] [OfNat K 2] {engine : Engine K} {settings : LayoutSettings K}
  {d d' x : Diagram K} {corners : List (String × Point K)} {i : Nat}

/-- Elements that are both drawn become the same where they differ in their drawing only. -/
theorem Diagram.Alike.redraw_drawn (h : d.Alike d') (hcorners : d.Cornered corners)
    (settings : LayoutSettings K) {e e' : Element K} (he : d.elements[i]? = some e)
    (he' : d'.elements[i]? = some e') (heq : e.unplaced = e'.unplaced) (hdraw : d.Redraws i e) :
    (d.redraw settings corners).elements[i]? = (d'.redraw settings corners).elements[i]? := by
  have hdraw' : d'.Redraws i e' := (h.redraws_iff heq i).mp hdraw
  cases e' with
  | note t => exact hdraw'.elim
  | node n =>
    obtain ⟨m, rfl, hid, _⟩ := node_of_unplaced heq
    obtain ⟨corner, hcorner, hm⟩ := redraw_box hcorners settings he hdraw
    obtain ⟨corner', hcorner', hn⟩ := redraw_box (h.cornered hcorners) settings he' hdraw'
    rw [hid, hcorner'] at hcorner
    obtain rfl := Option.some.inj hcorner
    have hcleared : m.cleared = n.cleared := Element.node.inj heq
    have hput := congrArg (fun n : Node K => { n with position := some corner' }) hcleared
    rw [hm, hn]
    exact congrArg (some ∘ Element.node) hput
  | arrow a =>
    obtain ⟨b, rfl, hkind, hsource, htarget⟩ := arrow_of_unplaced heq
    obtain ⟨hk, hs, ht⟩ := redraws_arrow.mp hdraw'
    obtain ⟨source, hs⟩ := exists_node?_moveBoxes corners hs
    obtain ⟨target, ht⟩ := exists_node?_moveBoxes corners ht
    -- the boxes at both ends have been put in the same places
    have hs' := (h.node?_moveBoxes hcorners a.source).trans hs
    have ht' := (h.node?_moveBoxes hcorners a.target).trans ht
    have hcleared : b.cleared = a.cleared := Element.arrow.inj heq
    have hdrawn := congrArg (fun a : Arrow K =>
      { a with points := some (routeBetween (source.box settings) (target.box settings)) }) hcleared
    rw [redraw_arrow settings he' hk hs ht,
      redraw_arrow settings he (hkind ▸ hk) (hsource ▸ hs') (htarget ▸ ht')]
    exact congrArg (some ∘ Element.arrow) hdrawn

/-- **Diagrams that differ in what is drawn anew are drawn alike.** -/
theorem redraw_congr (hcorners : d.Cornered corners) (settings : LayoutSettings K)
    (h : d.undrawn = d'.undrawn) :
    (d.redraw settings corners).elements = (d'.redraw settings corners).elements := by
  have halike : d.Alike d' := alike_of_undrawn h
  refine List.ext_getElem? fun i => ?_
  have hi := congrArg (·[i]?) h
  simp only [getElem?_undrawn] at hi
  cases he : d.elements[i]? with
  | none =>
    have he' : d'.elements[i]? = none := by
      rw [he] at hi
      exact Option.map_eq_none_iff.mp hi.symm
    rw [redraw_none he, redraw_none he']
  | some e =>
    rw [he, Option.map_some] at hi
    obtain ⟨e', he', heq⟩ := Option.map_eq_some_iff.mp hi.symm
    -- an element that is drawn was compared without its place, any other one as it is
    have hunplaced : e.unplaced = e'.unplaced := by
      have hboth := congrArg Element.unplaced heq
      rw [unplaced_ite, unplaced_ite] at hboth
      exact hboth.symm
    by_cases hdraw : d.Redraws i e
    · exact halike.redraw_drawn hcorners settings he he' hunplaced hdraw
    · have hdraw' : ¬ d'.Redraws i e' := fun h => hdraw ((halike.redraws_iff hunplaced i).mpr h)
      rw [if_neg hdraw, if_neg hdraw'] at heq
      subst heq
      rw [redraw_rest he hdraw, redraw_rest he' hdraw']

/-- Drawing a diagram anew changes nothing but what is drawn. -/
theorem undrawn_redraw (hcorners : d.Cornered corners) (settings : LayoutSettings K) :
    (d.redraw settings corners).undrawn = d.undrawn := by
  -- drawing changes places only, so what is drawn at all is told before and after alike
  have halike : (d.redraw settings corners).Alike d := unplaced_redraw settings d corners
  refine List.ext_getElem? fun i => ?_
  rw [getElem?_undrawn, getElem?_undrawn]
  cases he : d.elements[i]? with
  | none => rw [redraw_none he, Option.map_none, Option.map_none]
  | some e =>
    obtain ⟨e', he', hcases⟩ := redraw_cases hcorners settings he
    rw [he', Option.map_some, Option.map_some]
    by_cases hdraw : d.Redraws i e
    · rw [if_pos hdraw] at hcases
      rw [if_pos hdraw, if_pos ((halike.redraws_iff hcases.unplaced_eq i).mpr hdraw),
        hcases.unplaced_eq]
    · rw [if_neg hdraw] at hcases
      subst hcases
      rw [if_neg hdraw, if_neg fun h => hdraw ((halike.redraws_iff rfl i).mp h)]

/-- If one of two diagrams that differ in what is drawn anew is laid out, the other one is as well,
and alike. -/
theorem arrangeWith_congr (hpart : engine.Partitions) (h : d.undrawn = d'.undrawn)
    (hx : d.arrangeWith engine settings = .ok x) :
    ∃ x', d'.arrangeWith engine settings = .ok x' ∧ x'.elements = x.elements := by
  obtain ⟨corners, hplaces, rfl⟩ := arrangeWith_eq_ok_iff.mp hx
  refine ⟨_, arrangeWith_eq_ok_iff.mpr ⟨corners, (alike_of_undrawn h).places hplaces, rfl⟩, ?_⟩
  exact (redraw_congr (hpart.cornered hplaces) settings h).symm

/-- A diagram that has been laid out is laid out again, and stays as it is. -/
theorem arrangeWith_again (hpart : engine.Partitions)
    (hx : d.arrangeWith engine settings = .ok x) : x.arrangeWith engine settings = .ok x := by
  obtain ⟨corners, hplaces, rfl⟩ := arrangeWith_eq_ok_iff.mp hx
  have hundrawn := undrawn_redraw (hpart.cornered hplaces) settings
  obtain ⟨x', hx', helements⟩ := arrangeWith_congr hpart hundrawn.symm hx
  -- what is laid out twice has the header of what is laid out once
  have hbare := (bare_arrangeWith hx').trans (congrArg Diagram.bare rfl)
  rw [hx', Diagram.eq_of_bare hbare helements]

/-- **A layout forgets what was drawn before.** Let two diagrams differ only in the places of boxes
that are drawn and in the lines of arrows between two boxes; with distinct ids these are all boxes
of a known kind. If the engine can draw the one it can draw the other, and they become the same
elements. So a layout of a diagram that has been laid out changes nothing. -/
theorem layout_forgets_drawings (engine : Engine K) (hpart : engine.Partitions)
    (settings : LayoutSettings K) :
    (∀ d d' : Diagram K, d.undrawn = d'.undrawn → engine.Draws settings d →
      ∃ x x', d.arrangeWith engine settings = .ok x ∧ d'.arrangeWith engine settings = .ok x' ∧
        x.elements = x'.elements) ∧
    (∀ d : Diagram K, d.ids.Nodup → ∀ i n, d.elements[i]? = some (.node n) →
      (d.Redraws i (.node n) ↔ n.kind.isKnown = true)) ∧
    ∀ d : Diagram K, engine.Draws settings d →
      ∃ x, d.arrangeWith engine settings = .ok x ∧ x.arrangeWith engine settings = .ok x := by
  refine ⟨fun d d' h hdraws => ?_, fun d hn i n hi => redraws_box_iff hn hi, fun d hdraws => ?_⟩
  · obtain ⟨x, hx⟩ := exists_arrangeWith_iff.mpr hdraws
    obtain ⟨x', hx', helements⟩ := arrangeWith_congr hpart h hx
    exact ⟨x, x', hx, hx', helements.symm⟩
  · obtain ⟨x, hx⟩ := exists_arrangeWith_iff.mpr hdraws
    exact ⟨x, hx, arrangeWith_again hpart hx⟩

/-- A shed with its boxes and its first line drawn in some way; the second line leads to nothing. -/
def shed (dog cat : Option (Point Int)) (line : Option (List (Point Int))) : Diagram Int :=
  { id := "d"
    name := "Shed"
    created := 0
    updated := 0
    elements :=
      [.node { id := "1", kind := .classBox, position := dog, text := some "Dog" },
       .node { id := "2", kind := .classBox, position := cat, size := some ⟨20, 10⟩ },
       .node { id := "3", kind := .other "enum", position := some ⟨2, 3⟩ },
       .arrow { id := "4", kind := .inheritance, source := "1", target := "2", points := line },
       .arrow { id := "5", kind := .dependency, source := "1", target := "0", points := some [] }] }

theorem layout_forgets_drawings_shed :
    rowEngine.Partitions ∧ (shed none (some ⟨7, 7⟩) none).ids.Nodup ∧
      (shed none (some ⟨7, 7⟩) none).undrawn =
        (shed (some ⟨3, 4⟩) none (some [⟨0, 0⟩])).undrawn ∧
      ∃ x x', (shed none (some ⟨7, 7⟩) none).arrangeWith rowEngine ⟨⟨30, 20⟩, 10, 10, 5⟩ = .ok x ∧
        (shed (some ⟨3, 4⟩) none (some [⟨0, 0⟩])).arrangeWith rowEngine ⟨⟨30, 20⟩, 10, 10, 5⟩ =
          .ok x' ∧
        x.elements = x'.elements := by
  have hsame : (shed none (some ⟨7, 7⟩) none).undrawn =
      (shed (some ⟨3, 4⟩) none (some [⟨0, 0⟩])).undrawn := by decide +kernel
  exact ⟨partitions_rowEngine, by decide, hsame,
    (layout_forgets_drawings rowEngine partitions_rowEngine _).1 _ _ hsame (draws_rowEngine _ _)⟩

end ClassAtlas
