import ClassAtlas.Proofs.Dialect

/-!
# What a diagram that was read is made of

Both readers put a diagram together from the names that a text declares and the relations that it
states. Nothing is invented and nothing is lost on the way: a name becomes one box, a relation
becomes an arrow if both its names are declared, and the ends of the arrow are found again where
they were put.
-/

namespace ClassAtlas

variable {K : Type} {d : Diagram K}

/-! ## Diagrams made of names and relations -/

/-- An arrow stands for a relation: its ends are the boxes that the two names find. -/
def Diagram.Draws (d : Diagram K) (a : Arrow K) (r : Relation) : Prop :=
  a.kind = r.kind ∧ ∃ source target, d.labelled? r.source = some source ∧
    d.labelled? r.target = some target ∧ d.ends? a = some (source, target)

/-- A diagram consists of boxes for some names and, behind all of them, arrows for some relations.
-/
structure Diagram.MadeOf (d : Diagram K) (names : List (String × NodeKind))
    (relations : List Relation) (boxes : List (Node K)) (links : List (Arrow K)) : Prop where
  elements : d.elements = boxes.map .node ++ links.map .arrow
  /-- No id is used twice. -/
  ids : d.ids.Nodup
  /-- The boxes are those of the names, in order. -/
  names : boxes.map (fun n => (n.label, n.kind)) = names
  /-- No label is used twice. -/
  labels : (boxes.map Node.label).Nodup
  labelled : ∀ n ∈ boxes, n.label ≠ ""
  /-- The arrows are those of the relations, in order and with repetitions. -/
  links : List.Forall₂ d.Draws links relations

/-- If labels are distinct, a label finds the box that bears it. -/
theorem labelled?_of_mem (hn : (d.nodes.map Node.label).Nodup) {n : Node K} (h : n ∈ d.nodes)
    (hne : n.label ≠ "") : d.labelled? n.label = some n := by
  have htexts : (d.nodes.map Node.text).Nodup := by
    refine List.Nodup.of_map (·.getD "") ?_
    rwa [List.map_map]
  have htext : n.text = some n.label := by
    unfold Node.label at hne ⊢
    cases ht : n.text with
    | none => rw [ht] at hne; exact absurd rfl hne
    | some text => rfl
  unfold Diagram.labelled?
  rw [← htext]
  exact find?_key_of_mem htexts h

/-- The boxes are the elements before the arrows, if all of them are of known kinds. -/
theorem nodes_of_elements {boxes : List (Node K)} {links : List (Arrow K)}
    (h : d.elements = boxes.map .node ++ links.map .arrow)
    (hknown : ∀ n ∈ boxes, n.kind.isKnown = true) : d.nodes = boxes := by
  have hbox : ∀ n ∈ boxes, (Element.node? ∘ Element.node) n = some n := fun n hn =>
    Element.node?_eq_some_iff.mpr ⟨rfl, hknown n hn⟩
  have hlink : ∀ e ∈ links.map Element.arrow, e.node? = none := by
    rw [List.forall_mem_map]
    exact fun _ _ => rfl
  unfold Diagram.nodes
  rw [h, List.filterMap_append, List.filterMap_map, List.filterMap_congr hbox,
    List.filterMap_some, List.filterMap_eq_nil_iff.mpr hlink, List.append_nil]

/-! ## From the sketch to the elements -/

/-- Elements whose shapes are given by a list are themselves given by it, one by one, if each shape
in the list tells what the element is. -/
theorem exists_of_shapes {α β : Type} {make : β → Element K} {shape : α → Shape} {P : β → α → Prop}
    (htells : ∀ e x, d.shape e = shape x → ∃ y, e = make y ∧ P y x) {es : List (Element K)}
    {xs : List α} (h : es.map d.shape = xs.map shape) :
    ∃ ys : List β, es = ys.map make ∧ List.Forall₂ P ys xs := by
  induction xs generalizing es with
  | nil => exact ⟨[], List.map_eq_nil_iff.mp h, .nil⟩
  | cons x xs ih =>
    obtain ⟨e, es, rfl, he, hes⟩ := List.map_eq_cons_iff.mp h
    obtain ⟨y, rfl, hy⟩ := htells e x he
    obtain ⟨ys, rfl, hys⟩ := ih hes
    exact ⟨y :: ys, rfl, .cons hy hys⟩

theorem exists_boxes {es : List (Element K)} {names : List (String × NodeKind)}
    {members : String → Members}
    (h : es.map d.shape = names.map fun x => .box x.2 x.1 (members x.1)) :
    ∃ boxes : List (Node K), es = boxes.map .node ∧
      boxes.map (fun n => (n.label, n.kind)) = names := by
  -- only a node is drawn as a box
  have htells : ∀ e (x : String × NodeKind), d.shape e = .box x.2 x.1 (members x.1) →
      ∃ n : Node K, e = .node n ∧ (n.label, n.kind) = x := by
    rintro e ⟨name, kind⟩ he
    cases e with
    | arrow a => exact absurd he (by simp [Diagram.shape])
    | note t => exact absurd he (by simp [Diagram.shape])
    | node n =>
      obtain ⟨rfl, rfl, _⟩ := Shape.box.inj he
      exact ⟨n, rfl, rfl⟩
  obtain ⟨boxes, hes, hboxes⟩ := exists_of_shapes htells h
  refine ⟨boxes, hes, ?_⟩
  rw [← List.forall₂_eq_eq_eq, List.forall₂_map_left_iff]
  exact hboxes

theorem exists_links {es : List (Element K)} {rs : List Relation}
    (h : es.map d.shape = rs.map Relation.shape) :
    ∃ links : List (Arrow K), es = links.map .arrow ∧ List.Forall₂ (fun a r =>
      a.kind = r.kind ∧ d.endLabels? a = some (r.source, r.target)) links rs := by
  refine exists_of_shapes ?_ h
  intro e r he
  cases e with
  | node n => exact absurd he (by simp [Diagram.shape, Relation.shape])
  | note t => exact absurd he (by simp [Diagram.shape, Relation.shape])
  | arrow a => exact ⟨a, rfl, Shape.link.inj he⟩

/-! ## What a text says -/

namespace Dialect

/-- The names that a text declares and what they are declared as. A name that is declared as both a
class and an interface is a class. -/
def declarations : Dialect → String → List (String × NodeKind)
  | .markup, text => (declaredNames "class" text).map (·, .classBox)
  | .code, text => (declaredNames "class" text).map (·, .classBox) ++
      (Code.interfacesIn text).map (·, .interfaceBox)

/-- The names that a text declares, in order. -/
def names (dialect : Dialect) (text : String) : List String :=
  (dialect.declarations text).map (·.1)

/-- The relations that a text states, whether or not their names are declared. -/
def stated : Dialect → String → List Relation
  | .markup, text => Markup.relationsOf text
  | .code, text => Code.relations (Code.interfacesIn text) text

/-- The relations between declared names. -/
def related (dialect : Dialect) (text : String) : List Relation :=
  (dialect.stated text).filter fun r =>
    decide (r.source ∈ dialect.names text ∧ r.target ∈ dialect.names text)

/-- The members that a text declares for a name. The markup has members, but they are not read. -/
def members : Dialect → String → String → Members
  | .markup, _, _ => {}
  | .code, text, name => Code.membersIn text name

variable {settings : ReadSettings} {supply : Supply}

theorem names_markup (text : String) : markup.names text = declaredNames "class" text := by
  unfold names declarations
  rw [List.map_map]
  exact List.map_id _

theorem names_code (text : String) :
    code.names text = declaredNames "class" text ++ Code.interfacesIn text := by
  unfold names declarations
  rw [List.map_append, List.map_map, List.map_map]
  exact congrArg₂ (· ++ ·) (List.map_id _) (List.map_id _)

theorem related_markup (text : String) : markup.related text = Markup.relationsIn text := by
  unfold related
  rw [names_markup]
  rfl

theorem related_code (text : String) : code.related text = Code.relationsIn text := by
  unfold related Code.relationsIn Code.Declares
  rw [names_code]
  simp only [List.mem_append]
  rfl

/-- **What a text says**, in either dialect. -/
theorem sketch_assemble (dialect : Dialect) (hid : Function.Injective supply.idAt)
    (text : String) : (dialect.assemble settings supply text).diagram.sketch =
      ((dialect.declarations text).map fun x => .box x.2 x.1 (dialect.members text x.1)) ++
        (dialect.related text).map Relation.shape := by
  cases dialect with
  | markup =>
    rw [related_markup, declarations, List.map_map]
    exact Markup.sketch_assemble hid text
  | code =>
    rw [related_code, declarations, List.map_append, List.map_map, List.map_map]
    exact Code.sketch_assemble hid text

theorem names_ok (dialect : Dialect) (text : String) :
    (dialect.names text).Nodup ∧ ∀ name ∈ dialect.names text, name ≠ "" := by
  cases dialect with
  | markup =>
    rw [names_markup]
    exact ⟨nodup_declaredNames _ _, ne_empty_of_mem_declaredNames _ _⟩
  | code =>
    rw [names_code, List.nodup_append]
    refine ⟨⟨nodup_declaredNames _ _, (nodup_declaredNames _ _).filter _, ?_⟩,
      Code.ne_empty_of_mem_names text⟩
    rintro name hclass _ hinterface rfl
    exact of_decide_eq_true (List.mem_filter.mp hinterface).2 hclass

/-- **Nothing is lost and nothing is invented.** The diagram that is read from a text has one box
for each declared name and, behind all boxes, one arrow for each relation between declared names, in
order; the names of a relation and the ids of its arrow find the same two boxes. This holds in
either dialect, for every text and however the boxes are arranged. -/
theorem read_is_made_of_text (dialect : Dialect) (engine : Engine Float)
    (settings : ReadSettings) (supply : Supply) (hid : Function.Injective supply.idAt)
    (text : String) :
    engine.Gives settings (fun a => ∃ boxes links, a.diagram.MadeOf
        (dialect.declarations text) (dialect.related text) boxes links)
      (dialect.read engine settings supply text) := by
  refine (dialect.gives_moved engine settings supply text).imp fun a _ hmoves => ?_
  have hsound : a.Sound := hmoves.sound (dialect.sound_assemble settings hid text)
  have hsketch := hmoves.sketch_eq.trans (dialect.sketch_assemble hid text)
  obtain ⟨es, es', helements, hes, hes'⟩ := List.map_eq_append_iff.mp hsketch
  obtain ⟨boxes, rfl, hboxes⟩ := exists_boxes hes
  obtain ⟨links, rfl, hlinks⟩ := exists_links hes'
  have hlabels : boxes.map Node.label = dialect.names text := by
    unfold names
    rw [← hboxes, List.map_map]
    rfl
  obtain ⟨hnodup, hne⟩ := dialect.names_ok text
  -- all boxes are of known kinds, so these are the boxes that labels find
  have hnodes : a.diagram.nodes = boxes := by
    refine nodes_of_elements helements ?_
    intro n hn
    refine (hsound.boxes n ?_).1
    rw [helements]
    exact List.mem_append_left _ (List.mem_map_of_mem hn)
  refine ⟨boxes, links, helements, hsound.ids, hboxes, hlabels ▸ hnodup, ?_, ?_⟩
  · intro n hn
    exact hne _ (hlabels ▸ List.mem_map_of_mem hn)
  · refine hlinks.imp ?_
    rintro link r ⟨hkind, hends⟩
    obtain ⟨⟨source, target⟩, hends, hpair⟩ := Option.map_eq_some_iff.mp hends
    obtain ⟨hsource, htarget⟩ := Prod.mk.inj hpair
    have hdistinct : (a.diagram.nodes.map Node.label).Nodup := hnodes ▸ hlabels ▸ hnodup
    obtain ⟨hs, ht⟩ := of_ends hends
    exact ⟨hkind, source, target, hsource ▸ labelled?_of_mem hdistinct hs.1 hs.2,
      htarget ▸ labelled?_of_mem hdistinct ht.1 ht.2, hends⟩

/-- `Pet` is declared both ways, so it is a class, and `Dog` inherits from it. `Ghost` is not
declared, so the relation to it is not drawn. -/
theorem read_is_made_of_text_pets :
    let text := "interface Pet \x7b\x7d class Dog : Pet, Walker \x7b\x7d class Pet \x7b\x7d " ++
      "interface Walker \x7b\x7d class Cat : Ghost \x7b\x7d"
    Function.Injective Supply.tally.idAt ∧
      code.declarations text = [("Dog", .classBox), ("Pet", .classBox), ("Cat", .classBox),
        ("Walker", .interfaceBox)] ∧
      code.related text =
        [⟨"Dog", "Pet", .inheritance⟩, ⟨"Dog", "Walker", .implementation⟩] ∧
      ∃ a, code.read layeredEngine {} .tally text = .ok a ∧ ∃ boxes links, a.diagram.MadeOf
        (code.declarations text) (code.related text) boxes links :=
  ⟨tally_injective, by decide +kernel, by decide +kernel,
    (read_is_made_of_text .code layeredEngine {} .tally tally_injective _).exists_ok (by decide)⟩

end Dialect

end ClassAtlas
