import Mathlib.Data.List.Basic
import ClassAtlas.Diagram.Query
import ClassAtlas.Diagram.Relation
import ClassAtlas.Layout.Placement
import ClassAtlas.Proofs.Repetition

/-!
# What a diagram says

The statements about reading and writing are about what a diagram *says*: which boxes there are, in
which order, with which labels and members, and which of them the arrows join. Ids and places do
not matter for this, only which box an id finds. The *sketch* of a diagram lists what each element
says; an arrow is shown with the labels at its two ends, if it has them.

A layout moves boxes and draws lines, so it does not change the sketch.
-/

namespace ClassAtlas

/-- What an element of a diagram says. -/
inductive Shape where
  | box (kind : NodeKind) (label : String) (members : Members)
  | link (kind : ArrowKind) (ends : Option (String × String))
  | note (text : Option String)
deriving Repr, DecidableEq

variable {K : Type}

/-- The labels at the two ends of an arrow, if it has both. -/
def Diagram.endLabels? (d : Diagram K) (arrow : Arrow K) : Option (String × String) :=
  (d.ends? arrow).map fun (source, target) => (source.label, target.label)

/-- What an element says in a diagram. -/
def Diagram.shape (d : Diagram K) : Element K → Shape
  | .node n => .box n.kind n.label (n.members.getD {})
  | .arrow a => .link a.kind (d.endLabels? a)
  | .note t => .note t.text

/-- What the elements of a diagram say, in order. -/
def Diagram.sketch (d : Diagram K) : List Shape := d.elements.map d.shape

/-- The arrow that a relation between two labels is drawn as. -/
def Relation.shape (r : Relation) : Shape := .link r.kind (some (r.source, r.target))

/-! ## Boxes and arrows -/

theorem Element.node?_eq_some_iff {e : Element K} {n : Node K} :
    e.node? = some n ↔ e = .node n ∧ n.kind.isKnown = true := by
  cases e with
  | arrow a => simp [Element.node?]
  | note t => simp [Element.node?]
  | node m =>
    simp only [Element.node?, Option.ite_none_right_eq_some, Option.some.injEq, Element.node.injEq]
    exact ⟨fun ⟨hk, heq⟩ => ⟨heq, heq ▸ hk⟩, fun ⟨heq, hk⟩ => ⟨heq ▸ hk, heq⟩⟩

theorem Element.arrow?_eq_some_iff {e : Element K} {a : Arrow K} :
    e.arrow? = some a ↔ e = .arrow a ∧ a.kind.isKnown = true := by
  cases e with
  | node n => simp [Element.arrow?]
  | note t => simp [Element.arrow?]
  | arrow b =>
    simp only [Element.arrow?, Option.ite_none_right_eq_some, Option.some.injEq,
      Element.arrow.injEq]
    exact ⟨fun ⟨hk, heq⟩ => ⟨heq, heq ▸ hk⟩, fun ⟨heq, hk⟩ => ⟨heq ▸ hk, heq⟩⟩

theorem mem_nodes {d : Diagram K} {n : Node K} :
    n ∈ d.nodes ↔ .node n ∈ d.elements ∧ n.kind.isKnown = true := by
  unfold Diagram.nodes
  simp [List.mem_filterMap, Element.node?_eq_some_iff]

theorem mem_arrows {d : Diagram K} {a : Arrow K} :
    a ∈ d.arrows ↔ .arrow a ∈ d.elements ∧ a.kind.isKnown = true := by
  unfold Diagram.arrows
  simp [List.mem_filterMap, Element.arrow?_eq_some_iff]

/-! ## Labels by id -/

/-- The label of the box that an id finds. -/
def Diagram.label? (d : Diagram K) (id : String) : Option String := (d.node? id).map Node.label

theorem endLabels?_eq (d : Diagram K) (arrow : Arrow K) :
    d.endLabels? arrow = (d.label? arrow.source).bind fun source =>
      (d.label? arrow.target).bind fun target =>
        if source = "" ∨ target = "" then none else some (source, target) := by
  unfold Diagram.endLabels? Diagram.ends? Diagram.label?
  cases d.node? arrow.source with
  | none => rfl
  | some source =>
    cases d.node? arrow.target with
    | none => rfl
    | some target =>
      by_cases h : source.label = "" ∨ target.label = "" <;> simp [h]

/-- The ends of an arrow are told by the labels that ids find. -/
theorem endLabels?_congr {d d' : Diagram K} (h : d.label? = d'.label?) {arrow arrow' : Arrow K}
    (hs : arrow.source = arrow'.source) (ht : arrow.target = arrow'.target) :
    d.endLabels? arrow = d'.endLabels? arrow' := by
  rw [endLabels?_eq, endLabels?_eq, h, hs, ht]

/-- A change of elements that keeps ids and labels keeps what ids find. -/
theorem label?_map {d d' : Diagram K} {f : Element K → Element K}
    (hd : d'.elements = d.elements.map f) (hid : ∀ e, (f e).id = e.id)
    (hlabel : ∀ e, (f e).node?.map Node.label = e.node?.map Node.label) :
    d'.label? = d.label? := by
  funext id
  unfold Diagram.label? Diagram.node? Diagram.find?
  rw [hd, List.find?_map]
  -- ids stay, so the search by id stops at the same element
  have hsame : ((fun e : Element K => e.id == id) ∘ f) = fun e : Element K => e.id == id := by
    funext e
    simp [hid]
  rw [hsame]
  cases d.elements.find? (fun e => e.id == id) with
  | none => rfl
  | some e => exact hlabel e

/-! ## Labels and relations -/

/-- The labels of the boxes that have one, in order. -/
def Diagram.labels (d : Diagram K) : List String :=
  (d.nodes.map Node.label).filter fun label => decide (label ≠ "")

/-- The boxes that have a label, in order. -/
def Diagram.labelledNodes (d : Diagram K) : List (Node K) :=
  d.nodes.filter fun n => decide (n.label ≠ "")

/-- The relations between labels that arrows stand for, in order. -/
def Diagram.relations (d : Diagram K) : List Relation :=
  d.arrows.filterMap fun a => (d.endLabels? a).map fun (source, target) => ⟨source, target, a.kind⟩

/-- The label of a box of a known kind that has one. -/
def Shape.label? : Shape → Option String
  | .box kind label _ => if kind.isKnown = true ∧ label ≠ "" then some label else none
  | _ => none

/-- The relation that an arrow of a known kind with two ends stands for. -/
def Shape.relation? : Shape → Option Relation
  | .link kind (some (source, target)) =>
    if kind.isKnown = true then some ⟨source, target, kind⟩ else none
  | _ => none

theorem mem_labelledNodes {d : Diagram K} {n : Node K} :
    n ∈ d.labelledNodes ↔ n ∈ d.nodes ∧ n.label ≠ "" := by
  unfold Diagram.labelledNodes
  rw [List.mem_filter, decide_eq_true_iff]

theorem map_label_labelledNodes (d : Diagram K) : d.labelledNodes.map Node.label = d.labels := by
  unfold Diagram.labelledNodes Diagram.labels
  rw [List.filter_map]
  rfl

theorem labels_eq_sketch (d : Diagram K) : d.labels = d.sketch.filterMap Shape.label? := by
  unfold Diagram.labels Diagram.nodes Diagram.sketch
  rw [List.map_filterMap, List.filter_filterMap, List.filterMap_map]
  refine congrArg (List.filterMap · d.elements) (funext ?_)
  intro e
  cases e with
  | arrow a => rfl
  | note t => rfl
  | node n =>
    show ((Element.node? (.node n)).map Node.label).filter _ =
      if n.kind.isKnown = true ∧ n.label ≠ "" then some n.label else none
    cases hk : n.kind.isKnown <;> simp [Element.node?, hk, Option.filter]

theorem relations_eq_sketch (d : Diagram K) : d.relations = d.sketch.filterMap Shape.relation? := by
  unfold Diagram.relations Diagram.arrows Diagram.sketch
  rw [List.filterMap_map, List.filterMap_filterMap]
  refine congrArg (List.filterMap · d.elements) (funext ?_)
  intro e
  cases e with
  | node n => rfl
  | note t => rfl
  | arrow a =>
    show (Element.arrow? (.arrow a)).bind _ = Shape.relation? (.link a.kind (d.endLabels? a))
    -- an arrow of another kind is left out by both, and so is one that lost an end
    cases hk : a.kind.isKnown with
    | false => cases d.endLabels? a <;> simp [Element.arrow?, hk, Shape.relation?]
    | true =>
      cases hends : d.endLabels? a <;> simp [Element.arrow?, hk, Shape.relation?, hends]

/-- The box that an id finds is a box of the diagram that bears the id. -/
theorem of_node? {d : Diagram K} {id : String} {n : Node K} (h : d.node? id = some n) :
    n ∈ d.nodes ∧ n.id = id := by
  unfold Diagram.node? at h
  obtain ⟨e, he, hen⟩ := Option.bind_eq_some_iff.mp h
  refine ⟨List.mem_filterMap.mpr ⟨e, List.mem_of_find?_eq_some he, hen⟩, ?_⟩
  obtain ⟨rfl, _⟩ := Element.node?_eq_some_iff.mp hen
  have hid : (Element.node n).id = id := by simpa using List.find?_some he
  exact hid

theorem mem_nodes_of_node? {d : Diagram K} {id : String} {n : Node K} (h : d.node? id = some n) :
    n ∈ d.nodes := (of_node? h).1

/-- What the boxes of a diagram say is part of its sketch. -/
theorem box_mem_sketch {d : Diagram K} {n : Node K} (h : n ∈ d.nodes) :
    Shape.box n.kind n.label (n.members.getD {}) ∈ d.sketch :=
  List.mem_map_of_mem (mem_nodes.mp h).1

/-- The relations of a diagram whose arrows all stand behind the boxes. -/
theorem relations_of_sketch {d : Diagram K} {shapes : List Shape} {rs : List Relation}
    (h : d.sketch = shapes ++ rs.map Relation.shape) (hshapes : ∀ s ∈ shapes, s.relation? = none)
    (hrs : ∀ r ∈ rs, r.kind.isKnown = true) : d.relations = rs := by
  have hlink : ∀ r ∈ rs, Shape.relation? r.shape = some r := by
    intro r hr
    exact if_pos (hrs r hr)
  rw [relations_eq_sketch, h, List.filterMap_append, List.filterMap_eq_nil_iff.mpr hshapes,
    List.nil_append, List.filterMap_map]
  exact (List.filterMap_congr hlink).trans List.filterMap_some

/-- The ends of an arrow are boxes of the diagram that have labels. -/
theorem of_ends {d : Diagram K} {a : Arrow K} {n m : Node K} (h : d.ends? a = some (n, m)) :
    (n ∈ d.nodes ∧ n.label ≠ "") ∧ m ∈ d.nodes ∧ m.label ≠ "" := by
  unfold Diagram.ends? at h
  obtain ⟨n', hn, hrest⟩ := Option.bind_eq_some_iff.mp h
  obtain ⟨m', hm, hif⟩ := Option.bind_eq_some_iff.mp hrest
  split at hif
  · exact absurd hif (by simp)
  · rename_i hne
    obtain ⟨rfl, rfl⟩ := Prod.mk.inj (Option.some.inj hif)
    rw [not_or] at hne
    exact ⟨⟨mem_nodes_of_node? hn, hne.1⟩, mem_nodes_of_node? hm, hne.2⟩

theorem isKnown_of_mem_arrows {d : Diagram K} {a : Arrow K} (h : a ∈ d.arrows) :
    a.kind.isKnown = true := (mem_arrows.mp h).2

theorem isKnown_of_mem_nodes {d : Diagram K} {n : Node K} (h : n ∈ d.nodes) :
    n.kind.isKnown = true := (mem_nodes.mp h).2

theorem mem_labels {d : Diagram K} {n : Node K} (h : n ∈ d.nodes ∧ n.label ≠ "") :
    n.label ∈ d.labels :=
  List.mem_filter.mpr ⟨List.mem_map_of_mem h.1, decide_eq_true h.2⟩

/-- A relation stands for an arrow between two boxes. -/
theorem mem_relations {d : Diagram K} {r : Relation} :
    r ∈ d.relations ↔ ∃ a ∈ d.arrows, ∃ n m, d.ends? a = some (n, m) ∧
      r = ⟨n.label, m.label, a.kind⟩ := by
  unfold Diagram.relations Diagram.endLabels?
  rw [List.mem_filterMap]
  constructor
  · rintro ⟨a, ha, hr⟩
    obtain ⟨⟨source, target⟩, hends, rfl⟩ := Option.map_eq_some_iff.mp hr
    obtain ⟨⟨n, m⟩, hnm, hpair⟩ := Option.map_eq_some_iff.mp hends
    obtain ⟨rfl, rfl⟩ := Prod.mk.inj hpair
    exact ⟨a, ha, n, m, hnm, rfl⟩
  · rintro ⟨a, ha, n, m, hnm, rfl⟩
    exact ⟨a, ha, by rw [hnm]; rfl⟩

/-- A relation that a diagram shows is of a known kind and between labels of the diagram. -/
theorem of_mem_relations {d : Diagram K} {r : Relation} (h : r ∈ d.relations) :
    r.kind.isKnown = true ∧ r.source ∈ d.labels ∧ r.target ∈ d.labels := by
  obtain ⟨a, ha, n, m, hends, rfl⟩ := mem_relations.mp h
  obtain ⟨hn, hm⟩ := of_ends hends
  exact ⟨isKnown_of_mem_arrows ha, mem_labels hn, mem_labels hm⟩

/-! ## Ids -/

theorem find?_of_mem {d : Diagram K} {e : Element K} (hn : (d.elements.map Element.id).Nodup)
    (he : e ∈ d.elements) : d.find? e.id = some e :=
  find?_key_of_mem hn he

theorem node?_of_mem {d : Diagram K} {n : Node K} (hn : (d.elements.map Element.id).Nodup)
    (hmem : Element.node n ∈ d.elements) (hk : n.kind.isKnown = true) : d.node? n.id = some n := by
  have hfind := find?_of_mem hn hmem
  unfold Diagram.node?
  rw [show Element.id (.node n) = n.id from rfl] at hfind
  rw [hfind]
  simp [Element.node?, hk]

/-! ## Elements without their places -/

/-- An element as it is before anything is drawn. -/
def Element.unplaced : Element K → Element K
  | .node n => .node { n with position := none }
  | .arrow a => .arrow { a with points := none }
  | .note t => .note t

@[simp] theorem unplaced_id (e : Element K) : e.unplaced.id = e.id := by
  cases e <;> rfl

/-- Where only places differ, a box stands for a box. -/
theorem node_of_unplaced {e : Element K} {n : Node K} (h : e.unplaced = (Element.node n).unplaced) :
    ∃ m, e = .node m ∧ m.id = n.id ∧ m.kind = n.kind ∧ m.text = n.text := by
  cases e with
  | arrow a => exact absurd h (by simp [Element.unplaced])
  | note t => exact absurd h (by simp [Element.unplaced])
  | node m =>
    have heq := Element.node.inj h
    simp only [Node.mk.injEq] at heq
    exact ⟨m, rfl, heq.1, heq.2.1, heq.2.2.2.2.1⟩

/-- Where only places differ, an arrow stands for an arrow with the same ends. -/
theorem arrow_of_unplaced {e : Element K} {a : Arrow K}
    (h : e.unplaced = (Element.arrow a).unplaced) :
    ∃ b, e = .arrow b ∧ b.kind = a.kind ∧ b.source = a.source ∧ b.target = a.target := by
  cases e with
  | node n => exact absurd h (by simp [Element.unplaced])
  | note t => exact absurd h (by simp [Element.unplaced])
  | arrow b =>
    have heq := Element.arrow.inj h
    simp only [Arrow.mk.injEq] at heq
    exact ⟨b, rfl, heq.2.1, heq.2.2.1, heq.2.2.2.1⟩

theorem exists_unplaced {es es' : List (Element K)}
    (h : es'.map Element.unplaced = es.map Element.unplaced) {e' : Element K} (he' : e' ∈ es') :
    ∃ e ∈ es, e.unplaced = e'.unplaced :=
  List.mem_map.mp (h ▸ List.mem_map_of_mem he')

/-- The diagram as it is before anything is drawn. -/
def Diagram.unplaced (d : Diagram K) : Diagram K :=
  { d with elements := d.elements.map Element.unplaced }

theorem label?_unplaced (d : Diagram K) : d.unplaced.label? = d.label? := by
  refine label?_map rfl unplaced_id ?_
  intro e
  cases e with
  | arrow a => rfl
  | note t => rfl
  | node n => cases hk : n.kind.isKnown <;> simp [Element.unplaced, Element.node?, hk, Node.label]

theorem shape_unplaced (d : Diagram K) (e : Element K) :
    d.unplaced.shape e.unplaced = d.shape e := by
  cases e with
  | node n => rfl
  | note t => rfl
  | arrow a => exact congrArg (Shape.link a.kind) (endLabels?_congr (label?_unplaced d) rfl rfl)

theorem sketch_unplaced (d : Diagram K) : d.unplaced.sketch = d.sketch := by
  unfold Diagram.sketch
  rw [show d.unplaced.elements = d.elements.map Element.unplaced from rfl, List.map_map]
  exact List.map_congr_left fun e _ => shape_unplaced d e

/-! ## Layouts -/

theorem map_unplaced_modifyFirst {f : Element K → Element K}
    (hf : ∀ e, (f e).unplaced = e.unplaced) (id : String) (es : List (Element K)) :
    (modifyFirst id f es).map Element.unplaced = es.map Element.unplaced := by
  induction es with
  | nil => rfl
  | cons e es ih =>
    rw [modifyFirst]
    split
    · simp [hf]
    · simp [ih]

theorem unplaced_moveTo (corner : Point K) (e : Element K) :
    (e.moveTo corner).unplaced = e.unplaced := by
  unfold Element.moveTo
  cases e with
  | arrow a => rfl
  | note t => rfl
  | node n => cases hk : n.kind.isKnown <;> simp [Element.node?, hk, Element.unplaced]

theorem unplaced_moveBoxes (d : Diagram K) (corners : List (String × Point K)) :
    (d.moveBoxes corners).elements.map Element.unplaced = d.elements.map Element.unplaced := by
  unfold Diagram.moveBoxes
  induction corners generalizing d with
  | nil => rfl
  | cons corner corners ih =>
    rw [List.foldl_cons, ih]
    exact map_unplaced_modifyFirst (unplaced_moveTo corner.2) corner.1 d.elements

section

variable [Add K] [Sub K] [Neg K] [Div K] [LT K] [DecidableLT K] [LE K] [DecidableLE K]
  [OfNat K 0] [OfNat K 1] [OfNat K 2]

theorem unplaced_reroute (settings : LayoutSettings K) (d : Diagram K) (e : Element K) :
    (d.reroute settings e).unplaced = e.unplaced := by
  unfold Diagram.reroute
  cases e with
  | node n => rfl
  | note t => rfl
  | arrow a =>
    cases hk : a.kind.isKnown with
    | false => simp [Element.arrow?, hk]
    | true =>
      -- with both ends there is a new line, otherwise the old one; neither counts
      simp only [Element.arrow?, hk, if_true]
      split
      · rfl
      · rfl

/-- Drawing a diagram anew changes places only, wherever its boxes are put. -/
theorem unplaced_redraw (settings : LayoutSettings K) (d : Diagram K)
    (corners : List (String × Point K)) :
    (d.redraw settings corners).elements.map Element.unplaced
      = d.elements.map Element.unplaced := by
  unfold Diagram.redraw Diagram.rerouteAll
  dsimp only
  rw [List.map_map, ← unplaced_moveBoxes d]
  exact List.map_congr_left fun e _ => unplaced_reroute settings _ e

end

end ClassAtlas
