import ClassAtlas.Proofs.Code.Declarable
import ClassAtlas.Proofs.Code.Recovery

/-!
# The round trip through class declarations

Reading what was written from a declarable diagram gives its classes and then its interfaces, with
the names of their members, and for every class the arrows that stand in its base list. The types of
members, all notes and the arrows that became comments are gone.
-/

namespace ClassAtlas.Code

open Text

variable {K : Type} {d : Diagram K}

/-! ## Relations -/

/-- The relations of a class to the bases that are written. -/
def linksIn (rs : List Relation) (label : String) : List Relation :=
  ((targetsIn rs .inheritance label).take 1).map (⟨label, ·, .inheritance⟩) ++
    (targetsIn rs .implementation label).eraseDups.map (⟨label, ·, .implementation⟩)

/-- What a base of a class says, by its place in the base list. -/
def baseRelation? (d : Diagram K) (label : String) (base : String × Nat) : Option Relation :=
  if base.1 ∉ labelsIn d .classType ∧ base.1 ∉ labelsIn d .interfaceType then none
  else if base.1 ∈ labelsIn d .interfaceType ∨ isInterfaceName base.1 then
    some ⟨label, base.1, .implementation⟩
  else if base.2 = 0 then some ⟨label, base.1, .inheritance⟩
  else none

theorem relations_bare {h : Heading} {names : List String}
    (hnames : h.bases = names.map fun name => ⟨name, []⟩) :
    h.relations (labelsIn d .classType) (labelsIn d .interfaceType) =
      names.zipIdx.filterMap (baseRelation? d h.name) := by
  unfold Heading.relations
  rw [hnames, List.zipIdx_map, List.filterMap_map]
  rfl

theorem mem_labels_iff {label : String} : label ∈ d.labels ↔
    label ∈ labelsIn d .classType ∨ label ∈ labelsIn d .interfaceType := by
  rw [← map_label_boxes]
  unfold labelsIn
  rw [← List.mem_append, ← List.map_append, List.mem_map, List.mem_map]
  refine exists_congr fun b => and_congr_left ?_
  intro _
  rw [List.mem_append, List.mem_filter, List.mem_filter, ← and_or_left]
  refine (and_iff_left ?_).symm
  unfold Box.sort
  cases b.isInterface
  · exact Or.inl rfl
  · exact Or.inr rfl

/-- No label is that of a class and of an interface. -/
theorem not_mem_interfaces (h : Declarable d) {label : String}
    (hclass : label ∈ labelsIn d .classType) : label ∉ labelsIn d .interfaceType := by
  intro hinterface
  have hnodup := h.nodup
  rw [← map_label_boxes] at hnodup
  obtain ⟨b, hb, rfl⟩ := List.mem_map.mp hclass
  obtain ⟨c, hc, heq⟩ := List.mem_map.mp hinterface
  obtain ⟨hb, hbsort⟩ := List.mem_filter.mp hb
  obtain ⟨hc, hcsort⟩ := List.mem_filter.mp hc
  obtain rfl := List.inj_on_of_nodup_map hnodup hc hb heq
  rw [of_decide_eq_true hbsort] at hcsort
  exact absurd hcsort (by decide)

section

variable {label : String}

/-- All that a class implements is read back, wherever it stands in the base list. -/
theorem filterMap_interfaces (h : Declarable d) (hlabel : label ∈ labelsIn d .classType)
    {names : List String} (hnames : ∀ name ∈ names, ⟨label, name, .implementation⟩ ∈ d.relations)
    (k : Nat) : (names.zipIdx k).filterMap (baseRelation? d label) =
      names.map (⟨label, ·, .implementation⟩) := by
  induction names generalizing k with
  | nil => rfl
  | cons name names ih =>
    have hr := hnames name (by simp)
    have hknown := mem_labels_iff.mp (of_mem_relations hr).2.2
    have hone : baseRelation? d label (name, k) = some ⟨label, name, .implementation⟩ := by
      unfold baseRelation?
      rw [if_neg (by rwa [← not_or, not_not]), if_pos (h.interfaces _ hr rfl hlabel)]
    rw [List.zipIdx_cons, List.filterMap_cons_some hone, List.map_cons,
      ih (fun x hx => hnames x (List.mem_cons_of_mem _ hx))]

/-- The base list of a class says what it was written from. -/
theorem relations_written (h : Declarable d) (hlabel : label ∈ labelsIn d .classType) :
    (basesIn d.relations label).zipIdx.filterMap (baseRelation? d label) =
      linksIn d.relations label := by
  have hinterfaces : ∀ name ∈ (targetsIn d.relations .implementation label).eraseDups,
      ⟨label, name, .implementation⟩ ∈ d.relations := by
    intro name hname
    exact mem_targetsIn.mp (List.mem_eraseDups.mp hname)
  unfold basesIn linksIn
  cases hparents : targetsIn d.relations .inheritance label with
  | nil => exact filterMap_interfaces h hlabel hinterfaces 0
  | cons parent others =>
    have hr : ⟨label, parent, .inheritance⟩ ∈ d.relations :=
      mem_targetsIn.mp (by rw [hparents]; simp)
    obtain ⟨hclass, hname⟩ := h.parents _ hr rfl hlabel
    -- the parent stands first, and nothing says that it is an interface
    have hone : baseRelation? d label (parent, 0) = some ⟨label, parent, .inheritance⟩ := by
      unfold baseRelation?
      rw [if_neg (fun hnot => hnot.1 hclass), if_neg, if_pos rfl]
      rintro (hin | hin)
      · exact not_mem_interfaces h hclass hin
      · rw [hname] at hin
        exact absurd hin (by simp)
    rw [List.take_succ_cons, List.take_zero, List.singleton_append, List.zipIdx_cons,
      List.filterMap_cons_some hone, filterMap_interfaces h hlabel hinterfaces]
    rfl

end

/-! ## The sketch -/

/-- The boxes of a sort, as they are read back. -/
def shapesIn (d : Diagram K) (sort : TypeSort) (kind : NodeKind) : List Shape :=
  ((boxes d).filter fun b => b.sort = sort).map fun b => .box kind b.label b.members

theorem names_written (bases : String → List String) (sort : TypeSort) :
    (sourceOf bases [] (boxes d)).names sort = labelsIn d sort :=
  map_sorted_sourceOf (fun _ _ _ _ => rfl) sort [] (boxes d)

/-- **What a written diagram says.** -/
theorem sketchIn_write (h : Declarable d) : sketchIn (write d) =
      shapesIn d .classType .classBox ++ shapesIn d .interfaceType .interfaceBox ++
        ((labelsIn d .classType).flatMap (linksIn d.relations)).map Relation.shape := by
  -- the written text is a source, and what is read from it is known: here, type by type
  have hshapes (sort : TypeSort) (kind : NodeKind) :
      ((sourceOf (basesIn d.relations) [] (boxes d)).sorted sort).map
        (fun t => Shape.box kind t.1.name t.2.lines) = shapesIn d sort kind := by
    rw [map_sorted_sourceOf (fun _ _ _ _ => rfl) sort [] (boxes d)]
    exact List.map_congr_left fun b _ => by rw [lines_declared]; rfl
  have hrelations : (sourceOf (basesIn d.relations) [] (boxes d)).relations =
      (labelsIn d .classType).flatMap (linksIn d.relations) := by
    unfold Source.relations
    rw [names_written, names_written, List.flatMap_def, List.flatMap_def,
      map_sorted_sourceOf (fun _ _ _ _ => rfl) .classType [] (boxes d)]
    refine congrArg List.flatten ?_
    unfold labelsIn
    rw [List.map_map]
    refine List.map_congr_left ?_
    intro b hb
    -- interfaces have no bases, and no class of a diagram is one
    have hclass : ¬ b.isInterface = true := by
      intro htrue
      have hsort := of_decide_eq_true (List.mem_filter.mp hb).2
      rw [Box.sort, if_pos htrue] at hsort
      exact absurd hsort (by decide)
    rw [Function.comp_apply, ← relations_written h (List.mem_map_of_mem hb)]
    exact relations_bare (if_neg hclass)
  rw [sketchIn_source (renders_write h), hshapes, hshapes, hrelations]

/-! ## Diagrams of classes and interfaces -/

/-- The boxes of a kind that have labels, in order. -/
def writtenOf (d : Diagram K) (kind : NodeKind) : List (Node K) :=
  d.labelledNodes.filter fun n => n.kind = kind

/-- The members of a box as they are read back: an interface has no attributes, and of every other
member line that has a name the name is kept. -/
def restated (n : Node K) : Members :=
  { attributes :=
      if n.kind = .interfaceBox then []
      else ((n.members.getD {}).attributes.filterMap memberName?).map (memberLine "+" · "string")
    methods := ((n.members.getD {}).methods.filterMap memberName?).map (memberLine "+" · "void") }

/-- A diagram in which labels are identifiers, each of them once, and none of them is a word that
the reader looks for. Arrows follow the convention: a class extends a class that is not named like
an interface, and implements an interface or what is named like one. -/
structure Conventional (d : Diagram K) : Prop where
  labels : ∀ n ∈ d.labelledNodes,
    isIdentifier n.label.toList = true ∧ n.label ∉ ["class", "interface", "where"]
  nodup : (d.labelledNodes.map Node.label).Nodup
  parents : ∀ a ∈ d.arrows, ∀ ends ∈ d.ends? a, a.kind = .inheritance →
    ends.1.kind = .classBox → ends.2.kind = .classBox ∧ isInterfaceName ends.2.label = false
  interfaces : ∀ a ∈ d.arrows, ∀ ends ∈ d.ends? a, a.kind = .implementation →
    ends.1.kind = .classBox → ends.2.kind = .interfaceBox ∨ isInterfaceName ends.2.label = true

instance (d : Diagram K) : Decidable (Conventional d) :=
  decidable_of_iff ((∀ n ∈ d.labelledNodes,
      isIdentifier n.label.toList = true ∧ n.label ∉ ["class", "interface", "where"]) ∧
    (d.labelledNodes.map Node.label).Nodup ∧
    (∀ a ∈ d.arrows, ∀ ends ∈ d.ends? a, a.kind = .inheritance → ends.1.kind = .classBox →
      ends.2.kind = .classBox ∧ isInterfaceName ends.2.label = false) ∧
    ∀ a ∈ d.arrows, ∀ ends ∈ d.ends? a, a.kind = .implementation → ends.1.kind = .classBox →
      ends.2.kind = .interfaceBox ∨ isInterfaceName ends.2.label = true)
    ⟨fun ⟨a, b, c, d⟩ => ⟨a, b, c, d⟩, fun ⟨a, b, c, d⟩ => ⟨a, b, c, d⟩⟩

/-- The sort of type that a box is written as. -/
def sortOf : NodeKind → TypeSort
  | .interfaceBox => .interfaceType
  | _ => .classType

theorem sortOf_eq_iff {kind kind' : NodeKind} (hk : kind.isKnown = true)
    (hk' : kind'.isKnown = true) : sortOf kind = sortOf kind' ↔ kind = kind' := by
  cases kind with
  | other word => exact absurd hk Bool.false_ne_true
  | classBox => cases kind' <;> first | exact absurd hk' Bool.false_ne_true | decide
  | interfaceBox => cases kind' <;> first | exact absurd hk' Bool.false_ne_true | decide

theorem sort_of (kind : NodeKind) (label : String) (members : Members) :
    (Box.of kind label members).sort = sortOf kind := by
  unfold Box.sort Box.of
  cases kind <;> rfl

theorem boxes_of_kind {k : NodeKind} (hk : k.isKnown = true) :
    ((boxes d).filter fun b => b.sort = sortOf k) =
      (writtenOf d k).map fun n => .of n.kind n.label (n.members.getD {}) := by
  unfold writtenOf
  rw [boxes_eq, List.filter_map]
  refine congrArg (List.map _) (List.filter_congr fun n hn => decide_eq_decide.mpr ?_)
  rw [sort_of]
  exact sortOf_eq_iff (isKnown_of_mem_nodes (mem_labelledNodes.mp hn).1) hk

theorem labelsIn_of_kind {k : NodeKind} (hk : k.isKnown = true) :
    labelsIn d (sortOf k) = (writtenOf d k).map Node.label := by
  unfold labelsIn
  rw [boxes_of_kind hk, List.map_map]
  rfl

theorem shapesIn_of_kind {k : NodeKind} (hk : k.isKnown = true) :
    shapesIn d (sortOf k) k =
      (writtenOf d k).map fun n => .box k n.label (restated n) := by
  unfold shapesIn
  rw [boxes_of_kind hk, List.map_map]
  refine List.map_congr_left fun n _ => congrArg (Shape.box k n.label) ?_
  unfold Box.members Box.of restated
  by_cases hkind : n.kind = .interfaceBox <;> simp [hkind]

/-- Labels tell boxes apart, so the box at an end of an arrow is the one of its label. -/
theorem Conventional.kind_of_mem (h : Conventional d) {k : NodeKind} {n : Node K}
    (hn : n ∈ d.labelledNodes) (hk : k.isKnown = true) (hlabel : n.label ∈ labelsIn d (sortOf k)) :
    n.kind = k := by
  rw [labelsIn_of_kind hk] at hlabel
  obtain ⟨m, hm, heq⟩ := List.mem_map.mp hlabel
  obtain ⟨hm, hkind⟩ := List.mem_filter.mp hm
  obtain rfl := List.inj_on_of_nodup_map h.nodup hm hn heq
  exact of_decide_eq_true hkind

theorem mem_labelsIn {k : NodeKind} {n : Node K} (hn : n ∈ d.labelledNodes)
    (hk : k.isKnown = true) (hkind : n.kind = k) : n.label ∈ labelsIn d (sortOf k) := by
  rw [labelsIn_of_kind hk]
  exact List.mem_map_of_mem (List.mem_filter.mpr ⟨hn, decide_eq_true hkind⟩)

theorem Conventional.declarable (h : Conventional d) : Declarable d := by
  -- every condition on labels comes from two: they are identifiers and no keywords
  have hlabel {label : String} (hmem : label ∈ d.labels) :
      isIdentifier label.toList = true ∧ label ∉ ["class", "interface", "where"] := by
    rw [← map_label_labelledNodes] at hmem
    obtain ⟨n, hn, rfl⟩ := List.mem_map.mp hmem
    exact h.labels n hn
  have hkeyword {label : String} (hmem : label ∈ d.labels) : label.toList ∉ typeWords := by
    intro hin
    obtain ⟨word, hword, heq⟩ := List.mem_map.mp hin
    rw [String.toList_inj.mp heq] at hword
    rcases List.mem_cons.mp hword with rfl | hword
    · exact (hlabel hmem).2 (by simp)
    · rw [List.mem_singleton.mp hword] at hmem
      exact (hlabel hmem).2 (by simp)
  exact
    { labels := fun label hmem => isWord_of_isIdentifier (hlabel hmem).1
      nodup := map_label_labelledNodes d ▸ h.nodup
      parents := by
        intro r hr hkind hsource
        obtain ⟨a, ha, n, m, hends, rfl⟩ := mem_relations.mp hr
        obtain ⟨hn, hm⟩ := of_ends hends
        have hclass := h.kind_of_mem (k := .classBox) (mem_labelledNodes.mpr hn) rfl hsource
        obtain ⟨hm', hname⟩ := h.parents a ha _ hends hkind hclass
        exact ⟨mem_labelsIn (k := .classBox) (mem_labelledNodes.mpr hm) rfl hm', hname⟩
      interfaces := by
        intro r hr hkind hsource
        obtain ⟨a, ha, n, m, hends, rfl⟩ := mem_relations.mp hr
        obtain ⟨hn, hm⟩ := of_ends hends
        have hclass := h.kind_of_mem (k := .classBox) (mem_labelledNodes.mpr hn) rfl hsource
        refine (h.interfaces a ha _ hends hkind hclass).imp_left ?_
        intro hm'
        exact mem_labelsIn (k := .interfaceBox) (mem_labelledNodes.mpr hm) rfl hm'
      bases := by
        intro r hr _
        obtain ⟨hid, hnot⟩ := hlabel (of_mem_relations hr).2.2
        exact ⟨hid, fun hwhere => hnot (by simp [hwhere])⟩
      comments := by
        intro r hr _
        obtain ⟨_, hsource, htarget⟩ := of_mem_relations hr
        exact ⟨hkeyword hsource, hkeyword htarget⟩ }

/-- **The round trip.** What is read from a written diagram has the classes and then the interfaces,
in order, with the names of their members. The arrows are, class by class, one to the first parent
and one to everything the class implements. -/
theorem declarations_round_trip (engine : Engine Float) (settings : ReadSettings)
    (supply : Supply) (hid : Function.Injective supply.idAt) (d : Diagram K)
    (h : Conventional d) :
    engine.Gives settings (fun a => a.diagram.sketch =
        ((writtenOf d .classBox).map fun n => .box .classBox n.label (restated n)) ++
        ((writtenOf d .interfaceBox).map fun n => .box .interfaceBox n.label (restated n)) ++
        (writtenOf d .classBox).flatMap fun n =>
          ((targets d .inheritance n.label).take 1).map
              (fun target => .link .inheritance (some (n.label, target))) ++
            (targets d .implementation n.label).eraseDups.map
              fun target => .link .implementation (some (n.label, target)))
      (read engine settings supply (write d)) := by
  have hclasses : shapesIn d .classType .classBox = _ := shapesIn_of_kind (k := .classBox) rfl
  have hinterfaces : shapesIn d .interfaceType .interfaceBox = _ :=
    shapesIn_of_kind (k := .interfaceBox) rfl
  have hlabels : labelsIn d .classType = _ := labelsIn_of_kind (k := .classBox) rfl
  -- the parent of a class is written first, then the interfaces, each of them once
  have hlinks (n : Node K) : (linksIn d.relations n.label).map Relation.shape =
      ((targets d .inheritance n.label).take 1).map
          (fun target => .link .inheritance (some (n.label, target))) ++
        (targets d .implementation n.label).eraseDups.map
          fun target => .link .implementation (some (n.label, target)) := by
    unfold linksIn
    rw [targets_eq, targets_eq, List.map_append, List.map_map, List.map_map]
    rfl
  refine (gives_sketch engine settings hid (write d)).imp fun a _ ha => ?_
  rw [ha, sketchIn_write h.declarable, hclasses, hinterfaces, hlabels, List.flatMap_map,
    List.map_flatMap]
  simp only [hlinks]

/-- Classes and interfaces in mixed order. The class `Dog` has two parents, implements `IPet` twice
and uses `Walker`; the last arrow has lost its target. -/
def kennel : Diagram Nat :=
  { id := "d"
    name := "Kennel"
    created := 0
    updated := 0
    elements :=
      [.node { id := "1", kind := .interfaceBox, position := none, text := some "IPet",
               members := some
                 { attributes := ["+ legs: int"], methods := ["+ feed(food): bool"] } },
       .node { id := "2", kind := .classBox, position := none, text := some "Dog",
               members := some
                 { attributes := ["- age: int", "???"], methods := ["# bark: void"] } },
       .note { id := "3", text := some "class Cat", position := none },
       .node { id := "4", kind := .classBox, position := none, text := some "Animal" },
       .node { id := "5", kind := .classBox, position := none, text := some "IWalker" },
       .arrow { id := "6", kind := .implementation, source := "2", target := "1" },
       .arrow { id := "7", kind := .inheritance, source := "2", target := "4" },
       .arrow { id := "8", kind := .implementation, source := "2", target := "5" },
       .arrow { id := "9", kind := .inheritance, source := "2", target := "2" },
       .arrow { id := "10", kind := .implementation, source := "2", target := "1" },
       .arrow { id := "11", kind := .association, source := "2", target := "4" },
       .arrow { id := "12", kind := .inheritance, source := "2", target := "99" }] }

theorem conventional_kennel : Conventional kennel := by decide +kernel

theorem declarations_round_trip_kennel :
    Function.Injective Supply.tally.idAt ∧ Conventional kennel ∧
      ∃ a, read layeredEngine {} .tally (write kennel) = .ok a ∧ a.diagram.sketch =
        [.box .classBox "Dog" ⟨["+ age: string"], ["+ bark: void"]⟩,
          .box .classBox "Animal" {},
          .box .classBox "IWalker" {},
          .box .interfaceBox "IPet" ⟨[], ["+ feed: void"]⟩,
          .link .inheritance (some ("Dog", "Animal")),
          .link .implementation (some ("Dog", "IPet")),
          .link .implementation (some ("Dog", "IWalker"))] := by
  obtain ⟨a, hread, hsketch⟩ := (declarations_round_trip layeredEngine {} .tally tally_injective
    kennel conventional_kennel).exists_ok (by decide)
  exact ⟨tally_injective, conventional_kennel, a, hread, hsketch.trans (by decide +kernel)⟩

end ClassAtlas.Code
