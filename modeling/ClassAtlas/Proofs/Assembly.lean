import ClassAtlas.Assembly
import ClassAtlas.Proofs.Diagram.Sketch
import ClassAtlas.Proofs.Repetition
import Mathlib.Data.List.Induction
import Mathlib.Data.List.Nodup

/-!
# What an assembly says

Both readers put a diagram together by name: they declare names, relate them, and add members to
them. Each of these steps is described by what it does to the sketch of the diagram.

The invariant that carries this is that ids are used once, names are used once, every box is filed
under its name and every arrow joins two boxes of the diagram. It rests on the supply of ids: ids at
different places of the supply have to be different.
-/

namespace ClassAtlas

/-- The label of an element, if it is a box that has one. -/
def Element.text? : Element Float → Option String
  | .node n => n.text
  | _ => none

instance : Append Members where
  append a b := ⟨a.attributes ++ b.attributes, a.methods ++ b.methods⟩

theorem members_append (a b : Members) :
    a ++ b = ⟨a.attributes ++ b.attributes, a.methods ++ b.methods⟩ := rfl

@[simp] theorem members_append_empty (a : Members) : a ++ ({} : Members) = a := by
  cases a
  simp [members_append]

@[simp] theorem members_empty_append (a : Members) : ({} : Members) ++ a = a := by
  cases a
  simp [members_append]

theorem members_append_assoc (a b c : Members) : a ++ b ++ c = a ++ (b ++ c) := by
  simp [members_append]

/-- The members of several lists of members. -/
def Members.join (ms : List Members) : Members :=
  ⟨ms.flatMap (·.attributes), ms.flatMap (·.methods)⟩

theorem join_cons (m : Members) (ms : List Members) :
    Members.join (m :: ms) = m ++ Members.join ms := by
  simp [Members.join, members_append]

/-- A shape with further members for a box, by its label. -/
def Shape.addMembers (added : String → Members) : Shape → Shape
  | .box kind label members => .box kind label (members ++ added label)
  | s => s

theorem addMembers_addMembers (f g : String → Members) (s : Shape) :
    (s.addMembers f).addMembers g = s.addMembers fun name => f name ++ g name := by
  cases s with
  | box kind label members => simp [Shape.addMembers, members_append_assoc]
  | link kind ends => rfl
  | note text => rfl

theorem addMembers_empty {f : String → Members} (hf : ∀ name, f name = {}) (s : Shape) :
    s.addMembers f = s := by
  cases s with
  | box kind label members => simp [Shape.addMembers, hf]
  | link kind ends => rfl
  | note text => rfl

theorem map_addMembers_empty {f : String → Members} (hf : ∀ label, f label = {})
    (shapes : List Shape) : shapes.map (Shape.addMembers f) = shapes := by
  rw [List.map_congr_left fun s _ => addMembers_empty hf s, List.map_id']

theorem map_addMembers_map {f g h : String → Members}
    (hfg : ∀ label, f label ++ g label = h label) (shapes : List Shape) :
    (shapes.map (Shape.addMembers f)).map (Shape.addMembers g) =
      shapes.map (Shape.addMembers h) := by
  rw [List.map_map]
  refine List.map_congr_left fun s _ => ?_
  rw [Function.comp_apply, addMembers_addMembers]
  exact congrArg (Shape.addMembers · s) (funext hfg)

namespace Assembly

/-- The names that boxes are filed under, in order. -/
def names (a : Assembly) : List String := a.places.map (·.1)

/-- The places of the boxes among some elements, with their names. -/
def placesOf (es : List (Element Float)) : List (String × Nat) :=
  es.zipIdx.filterMap fun (e, place) => e.text?.map (·, place)

/-- Every box is filed under its name, and no name is used twice. -/
structure Filed (a : Assembly) : Prop where
  places_eq : a.places = placesOf a.diagram.elements
  names_nodup : a.names.Nodup

/-- What holds of an assembly at any time. -/
structure Sound (a : Assembly) : Prop where
  /-- The ids of the supply differ. -/
  injective : Function.Injective a.supply.idAt
  /-- Every id in use was handed out by the supply. -/
  taken : ∀ e ∈ a.diagram.elements, ∃ k < a.supply.idsTaken, e.id = a.supply.idAt k
  /-- No id is used twice. -/
  ids : (a.diagram.elements.map Element.id).Nodup
  /-- Names find boxes. -/
  filed : a.Filed
  /-- Boxes bear a name and are of a known kind. -/
  boxes : ∀ n, .node n ∈ a.diagram.elements →
    n.kind.isKnown = true ∧ ∃ name, name ≠ "" ∧ n.text = some name
  /-- Arrows are of a known kind and join two boxes. -/
  arrows : ∀ r, .arrow r ∈ a.diagram.elements → r.kind.isKnown = true ∧
    (∃ n, .node n ∈ a.diagram.elements ∧ n.id = r.source) ∧
    (∃ n, .node n ∈ a.diagram.elements ∧ n.id = r.target)
  /-- There are no notes. -/
  notes : ∀ t, .note t ∉ a.diagram.elements

variable {a b : Assembly} {name : String} {place : Nat} {n : Node Float}

/-! ## Places -/

theorem text?_eq_some_iff {e : Element Float} :
    e.text? = some name ↔ ∃ n, e = .node n ∧ n.text = some name := by
  cases e with
  | node n => exact ⟨fun h => ⟨n, rfl, h⟩, fun ⟨m, hm, h⟩ => Element.node.inj hm ▸ h⟩
  | arrow r => exact ⟨nofun, fun ⟨_, h, _⟩ => nomatch h⟩
  | note t => exact ⟨nofun, fun ⟨_, h, _⟩ => nomatch h⟩

theorem mem_placesOf {es : List (Element Float)} :
    (name, place) ∈ placesOf es ↔ ∃ n, es[place]? = some (.node n) ∧ n.text = some name := by
  unfold placesOf
  rw [List.mem_filterMap]
  constructor
  · rintro ⟨⟨e, i⟩, he, heq⟩
    obtain ⟨other, htext, hpair⟩ := Option.map_eq_some_iff.mp heq
    obtain ⟨rfl, rfl⟩ := Prod.mk.inj hpair
    obtain ⟨n, rfl, hn⟩ := text?_eq_some_iff.mp htext
    exact ⟨n, List.mk_mem_zipIdx_iff_getElem?.mp he, hn⟩
  · rintro ⟨n, he, htext⟩
    exact ⟨(.node n, place), List.mk_mem_zipIdx_iff_getElem?.mpr he,
      Option.map_eq_some_iff.mpr ⟨name, htext, rfl⟩⟩

theorem placesOf_concat (es : List (Element Float)) (e : Element Float) :
    placesOf (es ++ [e]) = placesOf es ++ (e.text?.map (·, es.length)).toList := by
  unfold placesOf
  rw [List.zipIdx_append, List.filterMap_append]
  refine congrArg (_ ++ ·) ?_
  cases h : e.text? <;> simp [h]

/-- Places depend on the labels of boxes only. -/
theorem placesOf_congr {es es' : List (Element Float)}
    (h : es.map Element.text? = es'.map Element.text?) : placesOf es = placesOf es' := by
  have hlabels (es : List (Element Float)) : placesOf es =
      (es.map Element.text?).zipIdx.filterMap fun (text, place) => text.map (·, place) := by
    rw [List.zipIdx_map, List.filterMap_map]
    rfl
  rw [hlabels, hlabels, h]

theorem keys_placesOf (es : List (Element Float)) :
    (placesOf es).map (·.1) = es.filterMap Element.text? := by
  induction es using List.reverseRecOn with
  | nil => rfl
  | append_singleton es e ih =>
    rw [placesOf_concat, List.map_append, ih, List.filterMap_append]
    cases h : e.text? <;> simp [h]

/-! ## Names find boxes -/

theorem place?_eq_none_iff : a.place? name = none ↔ name ∉ a.names := by
  unfold place? names
  rw [Option.map_eq_none_iff, List.find?_eq_none, List.mem_map]
  exact ⟨fun h ⟨x, hx, heq⟩ => h x hx (beq_iff_eq.mpr heq),
    fun h x hx heq => h ⟨x, hx, beq_iff_eq.mp heq⟩⟩

theorem exists_place? (h : name ∈ a.names) : ∃ place, a.place? name = some place :=
  Option.ne_none_iff_exists'.mp fun hnone => place?_eq_none_iff.mp hnone h

theorem mem_of_place? (h : a.place? name = some place) : (name, place) ∈ a.places := by
  obtain ⟨x, hx, rfl⟩ := Option.map_eq_some_iff.mp h
  have hbeq := List.find?_some hx
  have hname : x.1 = name := beq_iff_eq.mp hbeq
  exact hname ▸ List.mem_of_find?_eq_some hx

theorem boxAt?_eq_some_iff :
    a.boxAt? place = some n ↔ a.diagram.elements[place]? = some (.node n) := by
  unfold boxAt?
  split
  · rename_i m hm
    rw [hm]
    exact ⟨fun h => congrArg (some ∘ Element.node) (Option.some.inj h),
      fun h => congrArg some (Element.node.inj (Option.some.inj h))⟩
  · rename_i hnot
    exact ⟨nofun, fun h => absurd h (hnot n)⟩

/-- **A name is filed with the place of the box that bears it.** -/
theorem Filed.place?_eq_some_iff (h : a.Filed) : a.place? name = some place ↔
    ∃ n, a.diagram.elements[place]? = some (.node n) ∧ n.text = some name := by
  rw [← mem_placesOf, ← h.places_eq]
  refine ⟨mem_of_place?, fun hmem => ?_⟩
  unfold place?
  rw [find?_key_of_mem h.names_nodup hmem]
  rfl

theorem Filed.mem_names (h : a.Filed) :
    name ∈ a.names ↔ ∃ n, .node n ∈ a.diagram.elements ∧ n.text = some name := by
  unfold names
  rw [h.places_eq, keys_placesOf, List.mem_filterMap]
  constructor
  · rintro ⟨e, he, htext⟩
    obtain ⟨n, rfl, hn⟩ := text?_eq_some_iff.mp htext
    exact ⟨n, he, hn⟩
  · rintro ⟨n, hn, htext⟩
    exact ⟨_, hn, htext⟩

/-- **A name finds the one box that bears it.** -/
theorem Filed.node?_eq_some_iff (h : a.Filed) :
    a.node? name = some n ↔ .node n ∈ a.diagram.elements ∧ n.text = some name := by
  unfold node?
  rw [Option.bind_eq_some_iff]
  simp only [h.place?_eq_some_iff, boxAt?_eq_some_iff]
  constructor
  · rintro ⟨place, ⟨m, hm, htext⟩, hn⟩
    -- the place that is filed holds a single element
    obtain rfl := Element.node.inj (Option.some.inj (hm.symm.trans hn))
    exact ⟨List.mem_of_getElem? hn, htext⟩
  · rintro ⟨hn, htext⟩
    obtain ⟨place, hplace⟩ := List.mem_iff_getElem?.mp hn
    exact ⟨place, ⟨n, hplace, htext⟩, hplace⟩

theorem Filed.exists_node? (h : a.Filed) (hname : name ∈ a.names) : ∃ n, a.node? name = some n := by
  obtain ⟨n, hn⟩ := h.mem_names.mp hname
  exact ⟨n, h.node?_eq_some_iff.mpr hn⟩

/-- A name that is not filed finds nothing. -/
theorem node?_of_not_mem (h : name ∉ a.names) : a.node? name = none := by
  unfold node?
  rw [place?_eq_none_iff.mpr h]
  rfl

/-- Boxes stay filed when an element is added and, if it is a box, filed at its place. -/
theorem Filed.concat (h : a.Filed) {e : Element Float}
    (he : b.diagram.elements = a.diagram.elements ++ [e])
    (hplaces : b.places = a.places ++ (e.text?.map (·, a.diagram.elements.length)).toList)
    (hnew : ∀ name, e.text? = some name → name ∉ a.names) : b.Filed where
  places_eq := by rw [hplaces, he, placesOf_concat, h.places_eq]
  names_nodup := by
    unfold names
    rw [hplaces, List.map_append, List.nodup_append]
    refine ⟨h.names_nodup, ?_, fun x hx y hy heq => ?_⟩
    · cases e.text? <;> simp
    · -- what is new among the names is the name of the element
      have hy' : e.text? = some y := by
        cases htext : e.text? <;> simp_all
      exact hnew y hy' (heq ▸ hx)

/-- Boxes stay filed when their labels stay. -/
theorem Filed.of_texts (h : a.Filed) (hplaces : b.places = a.places)
    (he : b.diagram.elements.map Element.text? = a.diagram.elements.map Element.text?) :
    b.Filed where
  places_eq := by rw [hplaces, h.places_eq, placesOf_congr he]
  names_nodup := by
    unfold names
    rw [hplaces]
    exact h.names_nodup

/-! ## Adding an element -/

theorem Sound.nextId_not_mem (h : a.Sound) :
    a.supply.nextId ∉ a.diagram.elements.map Element.id := by
  intro hmem
  obtain ⟨e, he, hid⟩ := List.mem_map.mp hmem
  obtain ⟨k, hk, heq⟩ := h.taken e he
  have : k = a.supply.idsTaken := h.injective (heq.symm.trans hid)
  omega

theorem sound_start (settings : ReadSettings) {supply : Supply}
    (hid : Function.Injective supply.idAt) : (start settings supply).Sound where
  injective := hid
  taken := by intro e he; simp [start] at he
  ids := by simp [start]
  filed := ⟨rfl, .nil⟩
  boxes := by intro n hn; simp [start] at hn
  arrows := by intro r hr; simp [start] at hr
  notes := by intro t ht; simp [start] at ht

/-- The conditions under which a new element keeps an assembly sound. -/
theorem Sound.concat (h : a.Sound) {e : Element Float} (hid : e.id = a.supply.nextId)
    (he : b.diagram.elements = a.diagram.elements ++ [e]) (hs : b.supply = a.supply.afterId)
    (hfiled : b.Filed)
    (hbox : ∀ n, e = .node n → n.kind.isKnown = true ∧ ∃ name, name ≠ "" ∧ n.text = some name)
    (harrow : ∀ r, e = .arrow r → r.kind.isKnown = true ∧
      (∃ n, .node n ∈ a.diagram.elements ∧ n.id = r.source) ∧
      (∃ n, .node n ∈ a.diagram.elements ∧ n.id = r.target))
    (hnote : ∀ t, e ≠ .note t) : b.Sound where
  injective := by rw [hs]; exact h.injective
  taken := by
    rw [he, hs]
    intro x hx
    rcases List.mem_append.mp hx with hx | hx
    · obtain ⟨k, hk, heq⟩ := h.taken x hx
      exact ⟨k, Nat.lt_succ_of_lt hk, heq⟩
    · rw [List.mem_singleton] at hx
      exact ⟨a.supply.idsTaken, Nat.lt_succ_self _, by rw [hx, hid]; rfl⟩
  ids := by
    rw [he, List.map_append, List.map_singleton, hid]
    exact List.nodup_append.mpr ⟨h.ids, List.nodup_singleton _, fun x hx y hy heq =>
      h.nextId_not_mem (List.mem_singleton.mp hy ▸ heq ▸ hx)⟩
  filed := hfiled
  boxes := by
    rw [he]
    intro n hn
    rcases List.mem_append.mp hn with hn | hn
    · exact h.boxes n hn
    · exact hbox n (List.mem_singleton.mp hn).symm
  arrows := by
    rw [he]
    -- a box that an arrow may join is still there
    have keep {id : String} : (∃ n, .node n ∈ a.diagram.elements ∧ n.id = id) →
        ∃ n, .node n ∈ a.diagram.elements ++ [e] ∧ n.id = id :=
      fun ⟨n, hn, hid⟩ => ⟨n, List.mem_append_left _ hn, hid⟩
    intro r hr
    rcases List.mem_append.mp hr with hr | hr
    · obtain ⟨hk, hs, ht⟩ := h.arrows r hr
      exact ⟨hk, keep hs, keep ht⟩
    · obtain ⟨hk, hs, ht⟩ := harrow r (List.mem_singleton.mp hr).symm
      exact ⟨hk, keep hs, keep ht⟩
  notes := by
    rw [he]
    intro t ht
    rcases List.mem_append.mp ht with ht | ht
    · exact h.notes t ht
    · exact hnote t (List.mem_singleton.mp ht).symm

theorem label?_of_mem (h : a.Sound) {n : Node Float} (hn : .node n ∈ a.diagram.elements) :
    a.diagram.label? n.id = some n.label := by
  unfold Diagram.label?
  rw [node?_of_mem h.ids hn (h.boxes n hn).1]
  rfl

theorem label?_add {id name : String} (f : String → Element Float)
    (h : a.diagram.label? id = some name) : (a.add f).diagram.label? id = some name := by
  unfold Diagram.label? Diagram.node? Diagram.find? at *
  show Option.map _ (((a.diagram.elements ++ [_]).find? _).bind _) = _
  rw [List.find?_append]
  cases hfind : a.diagram.elements.find? (fun e => e.id == id) with
  | none => rw [hfind] at h; exact absurd h (by simp)
  | some e => rw [hfind] at h; exact h

/-- A new element adds what it says and leaves what the others say. -/
theorem sketch_add (h : a.Sound) (f : String → Element Float) :
    (a.add f).diagram.sketch
      = a.diagram.sketch ++ [(a.add f).diagram.shape (f a.supply.nextId)] := by
  show (a.diagram.elements ++ [f a.supply.nextId]).map _ = _
  rw [List.map_append]
  refine congrArg (· ++ _) (List.map_congr_left ?_)
  intro e he
  cases e with
  | node n => rfl
  | note t => rfl
  | arrow r =>
    -- the new element has a new id, so both ends are found where they were
    obtain ⟨_, ⟨n, hn, hs⟩, ⟨m, hm, ht⟩⟩ := h.arrows r he
    have hns := label?_of_mem h hn
    have hmt := label?_of_mem h hm
    rw [hs] at hns
    rw [ht] at hmt
    show Shape.link r.kind _ = Shape.link r.kind _
    rw [endLabels?_eq, endLabels?_eq, hns, hmt, label?_add f hns, label?_add f hmt]

/-! ## Declaring names -/

/-- A name that is filed stands for a box already. -/
theorem declare_of_place? (h : a.place? name = some place) (kind : NodeKind) :
    a.declare name kind = (place, a) := by
  unfold declare
  rw [h]

theorem declare_of_mem (h : name ∈ a.names) (kind : NodeKind) : (a.declare name kind).2 = a := by
  obtain ⟨place, hplace⟩ := exists_place? h
  rw [declare_of_place? hplace]

theorem declare_of_not_mem (h : name ∉ a.names) (kind : NodeKind) :
    a.declare name kind = (a.diagram.elements.length, a.addNew name kind) := by
  unfold declare
  rw [place?_eq_none_iff.mpr h]

theorem Filed.addNew (h : a.Filed) (hnew : name ∉ a.names) (kind : NodeKind) :
    (a.addNew name kind).Filed :=
  h.concat rfl rfl fun _ hname => Option.some.inj hname ▸ hnew

theorem Filed.declare (h : a.Filed) (name : String) (kind : NodeKind) :
    (a.declare name kind).2.Filed := by
  by_cases hmem : name ∈ a.names
  · rw [declare_of_mem hmem]
    exact h
  · rw [declare_of_not_mem hmem]
    exact h.addNew hmem kind

theorem sound_declare (h : a.Sound) {kind : NodeKind} (hname : name ≠ "")
    (hkind : kind.isKnown = true) : (a.declare name kind).2.Sound := by
  by_cases hmem : name ∈ a.names
  · rw [declare_of_mem hmem]
    exact h
  · rw [declare_of_not_mem hmem]
    refine h.concat rfl rfl rfl (h.filed.addNew hmem kind) ?_ nofun nofun
    intro n hn
    obtain rfl := Element.node.inj hn
    exact ⟨hkind, name, hname, rfl⟩

theorem names_addNew (a : Assembly) (name : String) (kind : NodeKind) :
    (a.addNew name kind).names = a.names ++ [name] := List.map_append ..

theorem names_declare (a : Assembly) (name : String) (kind : NodeKind) :
    (a.declare name kind).2.names = a.names ++ if name ∈ a.names then [] else [name] := by
  by_cases hmem : name ∈ a.names
  · rw [declare_of_mem hmem, if_pos hmem, List.append_nil]
  · rw [declare_of_not_mem hmem, if_neg hmem, names_addNew]

theorem sketch_declare (h : a.Sound) (name : String) (kind : NodeKind) :
    (a.declare name kind).2.diagram.sketch
      = a.diagram.sketch ++ if name ∈ a.names then [] else [.box kind name {}] := by
  by_cases hmem : name ∈ a.names
  · rw [declare_of_mem hmem, if_pos hmem, List.append_nil]
  · rw [declare_of_not_mem hmem, if_neg hmem]
    exact sketch_add h (.node <| a.newNode name kind ·)

theorem sound_declareAll (h : a.Sound) {kind : NodeKind} {ns : List String}
    (hns : ∀ name ∈ ns, name ≠ "") (hkind : kind.isKnown = true) :
    (a.declareAll kind ns).Sound := by
  unfold declareAll
  induction ns generalizing a with
  | nil => exact h
  | cons name ns ih =>
    rw [List.foldl_cons]
    exact ih (sound_declare h (hns name (by simp)) hkind)
      fun other hother => hns other (List.mem_cons_of_mem _ hother)

/-- The names of a list without repetition that are new stay new while others are declared. -/
theorem filter_new_declare {name : String} {ns : List String} (kind : NodeKind)
    (hn : name ∉ ns) :
    ns.filter (fun x => decide (x ∉ (a.declare name kind).2.names))
      = ns.filter fun x => decide (x ∉ a.names) := by
  refine List.filter_congr ?_
  intro x hx
  have hne : x ≠ name := fun heq => hn (heq ▸ hx)
  rw [names_declare]
  by_cases hmem : name ∈ a.names
  · simp [hmem]
  · simp [hmem, hne]

theorem names_declareAll (a : Assembly) (kind : NodeKind) {ns : List String} (hn : ns.Nodup) :
    (a.declareAll kind ns).names = a.names ++ ns.filter fun name => decide (name ∉ a.names) := by
  unfold declareAll
  induction ns generalizing a with
  | nil => simp
  | cons name ns ih =>
    obtain ⟨hnot, hn'⟩ := List.nodup_cons.mp hn
    rw [List.foldl_cons, ih _ hn', filter_new_declare kind hnot, names_declare]
    by_cases hmem : name ∈ a.names
    · simp [hmem]
    · simp [hmem]

theorem sketch_declareAll (h : a.Sound) {kind : NodeKind} {ns : List String} (hn : ns.Nodup)
    (hns : ∀ name ∈ ns, name ≠ "") (hkind : kind.isKnown = true) :
    (a.declareAll kind ns).diagram.sketch = a.diagram.sketch ++
      (ns.filter fun name => decide (name ∉ a.names)).map fun name => .box kind name {} := by
  unfold declareAll
  induction ns generalizing a with
  | nil => simp
  | cons name ns ih =>
    -- the names are distinct, so declaring one leaves the others as new as they were
    obtain ⟨hnot, hn'⟩ := List.nodup_cons.mp hn
    rw [List.foldl_cons, ih (sound_declare h (hns name (by simp)) hkind) hn'
      (fun other hother => hns other (List.mem_cons_of_mem _ hother)), sketch_declare h,
      filter_new_declare kind hnot]
    by_cases hmem : name ∈ a.names
    · simp [hmem]
    · simp [hmem]

/-! ## Relating names -/

/-- Both names of a relation are declared. -/
def Knows (a : Assembly) (r : Relation) : Prop := r.source ∈ a.names ∧ r.target ∈ a.names

instance (a : Assembly) (r : Relation) : Decidable (a.Knows r) :=
  inferInstanceAs (Decidable (_ ∧ _))

theorem relate_of_not_knows {r : Relation} (h : ¬ a.Knows r) : a.relate r = (none, a) := by
  unfold relate
  by_cases hsource : r.source ∈ a.names
  · rw [node?_of_not_mem fun htarget => h ⟨hsource, htarget⟩]
    split
    · contradiction
    · rfl
  · rw [node?_of_not_mem hsource]

/-- A relation between declared names becomes an arrow between their boxes. -/
theorem Filed.relate_of_knows (h : a.Filed) {r : Relation} (hr : a.Knows r) :
    ∃ s t, (.node s ∈ a.diagram.elements ∧ s.text = some r.source) ∧
      (.node t ∈ a.diagram.elements ∧ t.text = some r.target) ∧
      a.relate r = (some (newArrow s t r.kind a.supply.nextId),
        a.add (.arrow <| newArrow s t r.kind ·)) := by
  obtain ⟨s, hs⟩ := h.exists_node? hr.1
  obtain ⟨t, ht⟩ := h.exists_node? hr.2
  refine ⟨s, t, h.node?_eq_some_iff.mp hs, h.node?_eq_some_iff.mp ht, ?_⟩
  unfold relate
  rw [hs, ht]

theorem Filed.relate (h : a.Filed) (r : Relation) : (a.relate r).2.Filed := by
  by_cases hr : a.Knows r
  · obtain ⟨s, t, _, _, heq⟩ := h.relate_of_knows hr
    rw [heq]
    exact h.concat rfl (List.append_nil _).symm nofun
  · rw [relate_of_not_knows hr]
    exact h

theorem sound_relate (h : a.Sound) {r : Relation} (hk : r.kind.isKnown = true) :
    (a.relate r).2.Sound := by
  by_cases hr : a.Knows r
  · have hfiled := h.filed.relate r
    obtain ⟨s, t, hs, ht, heq⟩ := h.filed.relate_of_knows hr
    rw [heq] at hfiled ⊢
    refine h.concat rfl rfl rfl hfiled nofun ?_ nofun
    intro q hq
    obtain rfl := Element.arrow.inj hq
    exact ⟨hk, ⟨s, hs.1, rfl⟩, ⟨t, ht.1, rfl⟩⟩
  · rw [relate_of_not_knows hr]
    exact h

theorem places_relate (a : Assembly) (r : Relation) : (a.relate r).2.places = a.places := by
  unfold Assembly.relate
  split <;> rfl

theorem names_relate (a : Assembly) (r : Relation) : (a.relate r).2.names = a.names := by
  unfold names
  rw [places_relate]

theorem label_of_mem (h : a.Sound) {n : Node Float} {name : String}
    (hn : .node n ∈ a.diagram.elements ∧ n.text = some name) : n.label = name ∧ name ≠ "" := by
  obtain ⟨_, other, hne, hother⟩ := h.boxes n hn.1
  obtain rfl : name = other := Option.some.inj (hn.2.symm.trans hother)
  unfold Node.label
  rw [hn.2]
  exact ⟨rfl, hne⟩

theorem sketch_relate (h : a.Sound) (r : Relation) :
    (a.relate r).2.diagram.sketch = a.diagram.sketch ++ if a.Knows r then [r.shape] else [] := by
  by_cases hr : a.Knows r
  · obtain ⟨s, t, hs, ht, heq⟩ := h.filed.relate_of_knows hr
    obtain ⟨hsl, hsne⟩ := label_of_mem h hs
    obtain ⟨htl, htne⟩ := label_of_mem h ht
    rw [heq, if_pos hr, sketch_add h]
    -- the ends of the arrow are looked up in a diagram that has the arrow already
    refine congrArg (fun x => a.diagram.sketch ++ [x]) ?_
    have hslabel := label?_add (.arrow <| newArrow s t r.kind ·) (label?_of_mem h hs.1)
    have htlabel := label?_add (.arrow <| newArrow s t r.kind ·) (label?_of_mem h ht.1)
    show Shape.link r.kind _ = Shape.link r.kind _
    rw [endLabels?_eq]
    unfold newArrow at hslabel htlabel ⊢
    rw [hslabel, htlabel, hsl, htl]
    simp [hsne, htne]
  · rw [relate_of_not_knows hr, if_neg hr, List.append_nil]

theorem sound_relateAll (h : a.Sound) {rs : List Relation}
    (hrs : ∀ r ∈ rs, r.kind.isKnown = true) : (a.relateAll rs).Sound := by
  unfold relateAll
  induction rs generalizing a with
  | nil => exact h
  | cons r rs ih =>
    rw [List.foldl_cons]
    exact ih (sound_relate h (hrs r (by simp))) fun q hq => hrs q (List.mem_cons_of_mem _ hq)

theorem names_relateAll (a : Assembly) (rs : List Relation) : (a.relateAll rs).names = a.names := by
  unfold relateAll
  induction rs generalizing a with
  | nil => rfl
  | cons r rs ih => rw [List.foldl_cons, ih, names_relate]

theorem sketch_relateAll (h : a.Sound) {rs : List Relation}
    (hrs : ∀ r ∈ rs, r.kind.isKnown = true) :
    (a.relateAll rs).diagram.sketch
      = a.diagram.sketch ++ (rs.filter fun r => decide (a.Knows r)).map Relation.shape := by
  unfold relateAll
  induction rs generalizing a with
  | nil => simp
  | cons r rs ih =>
    -- an arrow declares no box, so the relations still to come are known as they were
    have hknows : (fun q => decide ((a.relate r).2.Knows q)) = fun q => decide (a.Knows q) := by
      funext q
      refine decide_eq_decide.mpr ?_
      unfold Knows
      rw [names_relate]
    rw [List.foldl_cons, ih (sound_relate h (hrs r (by simp)))
      (fun q hq => hrs q (List.mem_cons_of_mem _ hq)), sketch_relate h, hknows]
    by_cases hr : a.Knows r
    · simp [hr]
    · simp [hr]

/-- Relations to names that are not declared make no difference. -/
theorem relateAll_filter (a : Assembly) (rs : List Relation) :
    a.relateAll (rs.filter fun r => decide (a.Knows r)) = a.relateAll rs := by
  unfold relateAll
  -- relating declares nothing, so what is known at the start is known at each step
  have key : ∀ b : Assembly, b.names = a.names →
      (rs.filter fun r => decide (a.Knows r)).foldl (fun a r => (a.relate r).2) b =
        rs.foldl (fun a r => (a.relate r).2) b := by
    induction rs with
    | nil => intro b _; rfl
    | cons r rs ih =>
      intro b hb
      have hnext : (b.relate r).2.names = a.names := (names_relate b r).trans hb
      by_cases hr : a.Knows r
      · rw [List.filter_cons_of_pos (by simpa using hr), List.foldl_cons, List.foldl_cons]
        exact ih _ hnext
      · have hrb : ¬ b.Knows r := by
          unfold Knows at hr ⊢
          rw [hb]
          exact hr
        rw [List.filter_cons_of_neg (by simpa using hr), List.foldl_cons, relate_of_not_knows hrb]
        exact ih b hb
  exact key a rfl

/-! ## Adding members -/

theorem withMembers_id (members : Members) (e : Element Float) :
    (withMembers members e).id = e.id := by
  cases e <;> rfl

theorem withMembers_text? (members : Members) (e : Element Float) :
    (withMembers members e).text? = e.text? := by
  cases e <;> rfl

theorem withMembers_label (members : Members) (e : Element Float) :
    (withMembers members e).node?.map Node.label = e.node?.map Node.label := by
  cases e with
  | arrow r => rfl
  | note t => rfl
  | node n => cases hk : n.kind.isKnown <;> simp [withMembers, Element.node?, hk, Node.label]

/-- The element at the place of a name is the box that bears the name. -/
theorem Filed.modify_eq_map (h : a.Filed) (hplace : a.place? name = some place)
    (f : Element Float → Element Float) :
    a.diagram.elements.modify place f =
      a.diagram.elements.map fun e => if e.text? = some name then f e else e := by
  refine List.ext_getElem? fun i => ?_
  rw [List.getElem?_modify, List.getElem?_map]
  cases he : a.diagram.elements[i]? with
  | none => simp
  | some e =>
    -- the place filed under a name is the only one with that text
    have hiff : place = i ↔ e.text? = some name := by
      rw [text?_eq_some_iff]
      constructor
      · rintro rfl
        obtain ⟨n, hn, htext⟩ := h.place?_eq_some_iff.mp hplace
        exact ⟨n, Option.some.inj (he.symm.trans hn), htext⟩
      · rintro ⟨n, rfl, htext⟩
        have hi := h.place?_eq_some_iff.mpr ⟨n, he, htext⟩
        exact Option.some.inj (hplace.symm.trans hi)
    rw [Option.map_some, if_congr hiff.symm rfl rfl]
    split <;> rfl

/-- Adding members changes the box of the name and nothing else. -/
theorem Filed.elements_enrich (h : a.Filed) (name : String) (members : Members) :
    (a.enrich name members).diagram.elements = a.diagram.elements.map fun e =>
      if e.text? = some name ∧ members ≠ {} then withMembers members e else e := by
  -- both ways to do nothing, an unknown name and no members, leave the list as it is
  have same (hnone : ∀ e ∈ a.diagram.elements, ¬ (e.text? = some name ∧ members ≠ {})) :
      a.diagram.elements = a.diagram.elements.map fun e =>
        if e.text? = some name ∧ members ≠ {} then withMembers members e else e := by
    rw [List.map_congr_left fun e he => if_neg (hnone e he), List.map_id']
  unfold enrich
  cases hplace : a.place? name with
  | none =>
    refine same ?_
    rintro e he ⟨htext, _⟩
    obtain ⟨n, rfl, hn⟩ := text?_eq_some_iff.mp htext
    exact place?_eq_none_iff.mp hplace (h.mem_names.mpr ⟨n, he, hn⟩)
  | some place =>
    dsimp only
    by_cases hm : members.attributes = [] ∧ members.methods = []
    · rw [if_pos hm]
      refine same ?_
      rintro e he ⟨_, hne⟩
      apply hne
      cases members
      simpa using hm
    · have hne : members ≠ {} := by
        rintro rfl
        exact hm ⟨rfl, rfl⟩
      rw [if_neg hm]
      refine (h.modify_eq_map hplace (withMembers members)).trans ?_
      refine List.map_congr_left fun e _ => if_congr (and_iff_left hne).symm rfl rfl

theorem enrich_rest (a : Assembly) (name : String) (members : Members) :
    (a.enrich name members).supply = a.supply ∧ (a.enrich name members).places = a.places ∧
      (a.enrich name members).settings = a.settings ∧ (a.enrich name members).nextY = a.nextY := by
  unfold enrich
  split
  · split <;> exact ⟨rfl, rfl, rfl, rfl⟩
  · exact ⟨rfl, rfl, rfl, rfl⟩

theorem supply_enrich (a : Assembly) (name : String) (members : Members) :
    (a.enrich name members).supply = a.supply := (enrich_rest a name members).1

theorem places_enrich (a : Assembly) (name : String) (members : Members) :
    (a.enrich name members).places = a.places := (enrich_rest a name members).2.1

theorem names_enrich (a : Assembly) (name : String) (members : Members) :
    (a.enrich name members).names = a.names := by
  unfold names
  rw [places_enrich]

theorem Filed.enrich (h : a.Filed) (name : String) (members : Members) :
    (a.enrich name members).Filed := by
  refine h.of_texts (places_enrich a name members) ?_
  rw [h.elements_enrich, List.map_map]
  refine List.map_congr_left fun e _ => ?_
  rw [Function.comp_apply]
  split
  · exact withMembers_text? members e
  · rfl

theorem ids_enrich (h : a.Sound) (name : String) (members : Members) :
    (a.enrich name members).diagram.elements.map Element.id
      = a.diagram.elements.map Element.id := by
  rw [h.filed.elements_enrich, List.map_map]
  refine List.map_congr_left ?_
  intro e _
  show Element.id (if _ then _ else _) = _
  split
  · exact withMembers_id members e
  · rfl

/-- A box that an arrow may join is still there when members are added. -/
theorem box_enrich (h : a.Sound) (name : String) (members : Members) {id : String}
    (hbox : ∃ n, .node n ∈ a.diagram.elements ∧ n.id = id) :
    ∃ n, .node n ∈ (a.enrich name members).diagram.elements ∧ n.id = id := by
  obtain ⟨n, hn, rfl⟩ := hbox
  rw [h.filed.elements_enrich]
  by_cases hcond : (Element.node n).text? = some name ∧ members ≠ {}
  · exact ⟨_, List.mem_map.mpr ⟨_, hn, if_pos hcond⟩, rfl⟩
  · exact ⟨n, List.mem_map.mpr ⟨_, hn, if_neg hcond⟩, rfl⟩

/-- A box after members were added is a box from before, but for the members. -/
theorem of_node_mem_enrich (h : a.Sound) {name : String} {members : Members} {n : Node Float}
    (hn : .node n ∈ (a.enrich name members).diagram.elements) :
    ∃ m, .node m ∈ a.diagram.elements ∧ m.kind = n.kind ∧ m.text = n.text := by
  rw [h.filed.elements_enrich] at hn
  obtain ⟨e, he, heq⟩ := List.mem_map.mp hn
  split at heq
  · -- only a box is made into a box
    cases e with
    | node m =>
      obtain rfl := Element.node.inj heq
      exact ⟨m, he, rfl, rfl⟩
    | arrow r => exact absurd heq (by simp [withMembers])
    | note t => exact absurd heq (by simp [withMembers])
  · subst heq
    exact ⟨n, he, rfl, rfl⟩

theorem arrow_mem_enrich (h : a.Sound) {name : String} {members : Members} {r : Arrow Float}
    (hr : .arrow r ∈ (a.enrich name members).diagram.elements) :
    .arrow r ∈ a.diagram.elements := by
  rw [h.filed.elements_enrich] at hr
  obtain ⟨e, he, heq⟩ := List.mem_map.mp hr
  cases e with
  | node m => split at heq <;> exact absurd heq (by simp [withMembers])
  | arrow q => split at heq <;> exact heq ▸ he
  | note t => split at heq <;> exact absurd heq (by simp [withMembers])

theorem note_mem_enrich (h : a.Sound) {name : String} {members : Members} {t : Note Float}
    (ht : .note t ∈ (a.enrich name members).diagram.elements) : .note t ∈ a.diagram.elements := by
  rw [h.filed.elements_enrich] at ht
  obtain ⟨e, he, heq⟩ := List.mem_map.mp ht
  cases e with
  | node m => split at heq <;> exact absurd heq (by simp [withMembers])
  | arrow q => split at heq <;> exact absurd heq (by simp [withMembers])
  | note t => split at heq <;> exact heq ▸ he

theorem sound_enrich (h : a.Sound) (name : String) (members : Members) :
    (a.enrich name members).Sound where
  injective := by rw [supply_enrich]; exact h.injective
  -- members change no id, so the ids in use are those in use before
  taken := by
    intro e he
    have hid : e.id ∈ a.diagram.elements.map Element.id := by
      rw [← ids_enrich h name members]
      exact List.mem_map_of_mem he
    obtain ⟨x, hx, hxid⟩ := List.mem_map.mp hid
    rw [supply_enrich, ← hxid]
    exact h.taken x hx
  ids := by rw [ids_enrich h]; exact h.ids
  filed := h.filed.enrich name members
  boxes := by
    intro n hn
    obtain ⟨m, hm, hkind, htext⟩ := of_node_mem_enrich h hn
    rw [← hkind, ← htext]
    exact h.boxes m hm
  arrows := by
    intro r hr
    obtain ⟨hk, hs, ht⟩ := h.arrows r (arrow_mem_enrich h hr)
    exact ⟨hk, box_enrich h name members hs, box_enrich h name members ht⟩
  notes := fun t ht => h.notes t (note_mem_enrich h ht)

theorem label?_enrich (h : a.Sound) (name : String) (members : Members) :
    (a.enrich name members).diagram.label? = a.diagram.label? := by
  refine label?_map (h.filed.elements_enrich name members) ?_ ?_
  · intro e
    split
    · exact withMembers_id members e
    · rfl
  · intro e
    split
    · exact withMembers_label members e
    · rfl

/-- A box says its members, and those that are added if they are meant for it. -/
theorem box_shape_enrich (h : a.Sound) (name : String) (members : Members) {n : Node Float}
    (hn : .node n ∈ a.diagram.elements) :
    (a.enrich name members).diagram.shape
        (if n.text = some name ∧ members ≠ {} then withMembers members (.node n) else .node n) =
      .box n.kind n.label
        (n.members.getD {} ++ if n.label = name then members else {}) := by
  obtain ⟨_, other, _, htext⟩ := h.boxes n hn
  -- the label of a box is its text, so both tell alike which box it is
  obtain ⟨hlabel, _⟩ := label_of_mem h ⟨hn, htext⟩
  by_cases hname : other = name
  · subst hname
    rw [if_pos hlabel]
    by_cases hm : members = {}
    · rw [if_neg (not_and_not_right.mpr fun _ => hm), hm, members_append_empty]
      rfl
    · rw [if_pos ⟨htext, hm⟩]
      rfl
  · have hother : n.text ≠ some name := by
      rw [htext]
      exact fun heq => hname (Option.some.inj heq)
    rw [if_neg fun hcond => hother hcond.1, if_neg (hlabel ▸ hname), members_append_empty]
    rfl

theorem sketch_enrich (h : a.Sound) (name : String) (members : Members) :
    (a.enrich name members).diagram.sketch = a.diagram.sketch.map
      (Shape.addMembers fun label => if label = name then members else {}) := by
  unfold Diagram.sketch
  rw [h.filed.elements_enrich, List.map_map, List.map_map]
  -- shape by shape; an arrow is drawn with the labels of its boxes, and these stay
  refine List.map_congr_left ?_
  intro e he
  cases e with
  | node n => exact box_shape_enrich h name members he
  | arrow r =>
    have hnot : ¬ ((Element.arrow r).text? = some name ∧ members ≠ {}) := by
      simp [Element.text?]
    show Diagram.shape _ (if _ then _ else _) = _
    rw [if_neg hnot]
    exact congrArg (Shape.link r.kind) (endLabels?_congr (label?_enrich h name members) rfl rfl)
  | note t =>
    have hnot : ¬ ((Element.note t).text? = some name ∧ members ≠ {}) := by
      simp [Element.text?]
    show Diagram.shape _ (if _ then _ else _) = _
    rw [if_neg hnot]
    rfl

/-- Members added to one name, one after the other. -/
def enrichMany (a : Assembly) (name : String) (ms : List Members) : Assembly :=
  ms.foldl (fun a members => a.enrich name members) a

theorem enrichMany_spec (h : a.Sound) (name : String) (ms : List Members) :
    (a.enrichMany name ms).Sound ∧
      (a.enrichMany name ms).diagram.sketch = a.diagram.sketch.map
        (Shape.addMembers fun label => if label = name then Members.join ms else {}) := by
  unfold enrichMany
  -- the induction is over every assembly, since each addition makes another one
  induction ms generalizing a with
  | nil => exact ⟨h, (map_addMembers_empty (fun label => by split <;> rfl) _).symm⟩
  | cons m ms ih =>
    obtain ⟨hsound, hsketch⟩ := ih (sound_enrich h name m)
    refine ⟨hsound, ?_⟩
    rw [List.foldl_cons, hsketch, sketch_enrich h]
    refine map_addMembers_map (fun label => ?_) _
    by_cases hl : label = name
    · simp only [if_pos hl, join_cons]
    · simp only [if_neg hl, members_append_empty]

/-- Members added to several names, each of which gets those that are meant for it. -/
theorem enrichAll_spec (h : a.Sound) {ns : List String} (hn : ns.Nodup)
    (f : String → List Members) :
    (ns.foldl (fun a name => a.enrichMany name (f name)) a).Sound ∧
      (ns.foldl (fun a name => a.enrichMany name (f name)) a).diagram.sketch =
        a.diagram.sketch.map
          (Shape.addMembers fun label => if label ∈ ns then Members.join (f label) else {}) := by
  induction ns generalizing a with
  | nil => exact ⟨h, (map_addMembers_empty (fun label => by simp) _).symm⟩
  | cons name ns ih =>
    obtain ⟨hnot, hn'⟩ := List.nodup_cons.mp hn
    obtain ⟨hone, hsketch1⟩ := enrichMany_spec h name (f name)
    obtain ⟨hsound, hsketch⟩ := ih hone hn'
    refine ⟨hsound, ?_⟩
    rw [List.foldl_cons, hsketch, hsketch1]
    refine map_addMembers_map (fun label => ?_) _
    -- the name is not among the others, so it gets its members once
    by_cases hl : label = name
    · subst hl
      simp [hnot]
    · simp [hl, members_empty_append]

/-! ## Finishing -/

theorem labels_nodes (h : a.Sound) : a.diagram.nodes.map (·.label) = a.names := by
  -- stated for a list of elements, since the induction leaves the assembly behind
  have key : ∀ es : List (Element Float), (∀ n, .node n ∈ es →
      n.kind.isKnown = true ∧ ∃ name, name ≠ "" ∧ n.text = some name) →
      (es.filterMap Element.node?).map (·.label) = es.filterMap Element.text? := by
    intro es hes
    induction es with
    | nil => rfl
    | cons e es ih =>
      have ih' := ih fun n hn => hes n (List.mem_cons_of_mem _ hn)
      cases e with
      | arrow r => exact ih'
      | note t => exact ih'
      | node n =>
        obtain ⟨hk, name, _, htext⟩ := hes n (by simp)
        rw [List.filterMap_cons_some (show Element.node? (.node n) = some n by
            simp [Element.node?, hk]),
          List.filterMap_cons_some (show Element.text? (.node n) = some name from htext),
          List.map_cons, ih']
        simp [Node.label, htext]
  unfold names
  rw [h.filed.places_eq, keys_placesOf]
  exact key _ h.boxes

/-- An assembly stays sound when its elements are moved. -/
theorem Sound.of_unplaced (h : a.Sound) (hs : b.supply = a.supply) (hplaces : b.places = a.places)
    (he : b.diagram.elements.map Element.unplaced = a.diagram.elements.map Element.unplaced) :
    b.Sound := by
  -- whatever a function reads off the elements without their places is the same in both
  have same {α : Type} (f : List (Element Float) → α)
      (hf : ∀ es, f (es.map Element.unplaced) = f es) :
      f b.diagram.elements = f a.diagram.elements := by
    rw [← hf, he, hf]
  have hids : b.diagram.elements.map Element.id = a.diagram.elements.map Element.id := by
    refine same (List.map Element.id) fun es => ?_
    rw [List.map_map]
    exact List.map_congr_left fun e _ => unplaced_id e
  have htexts : b.diagram.elements.map Element.text? = a.diagram.elements.map Element.text? := by
    refine same (List.map Element.text?) fun es => ?_
    rw [List.map_map]
    exact List.map_congr_left fun e _ => by cases e <;> rfl
  -- the ends of an arrow are boxes of the same id in both
  have hbox {id : String} (hn : ∃ n, .node n ∈ a.diagram.elements ∧ n.id = id) :
      ∃ n, .node n ∈ b.diagram.elements ∧ n.id = id := by
    obtain ⟨n, hn, rfl⟩ := hn
    obtain ⟨e, hmem, heq⟩ := exists_unplaced he.symm hn
    obtain ⟨m, rfl, hid, _⟩ := node_of_unplaced heq
    exact ⟨m, hmem, hid⟩
  exact
    { injective := by rw [hs]; exact h.injective
      taken := by
        intro e' he'
        obtain ⟨e, hmem, heq⟩ := exists_unplaced he he'
        rw [hs, ← unplaced_id e', ← heq, unplaced_id]
        exact h.taken e hmem
      ids := by rw [hids]; exact h.ids
      filed := h.filed.of_texts hplaces htexts
      boxes := by
        intro n hn
        obtain ⟨e, hmem, heq⟩ := exists_unplaced he hn
        obtain ⟨m, rfl, _, hkind, htext⟩ := node_of_unplaced heq
        rw [← hkind, ← htext]
        exact h.boxes m hmem
      arrows := by
        intro r hr
        obtain ⟨e, hmem, heq⟩ := exists_unplaced he hr
        obtain ⟨q, rfl, hkind, hsource, htarget⟩ := arrow_of_unplaced heq
        rw [← hkind, ← hsource, ← htarget]
        obtain ⟨hk, hs, ht⟩ := h.arrows q hmem
        exact ⟨hk, hbox hs, hbox ht⟩
      notes := by
        intro t ht
        obtain ⟨e, hmem, heq⟩ := exists_unplaced he ht
        cases e with
        | note t => exact h.notes t hmem
        | node n => exact nomatch heq
        | arrow r => exact nomatch heq }

end Assembly

/-! ## Supplies of distinct ids -/

/-- A supply that numbers its ids by strokes. -/
def Supply.tally : Supply :=
  { idAt := fun n => String.ofList (List.replicate n 'i')
    timeAt := fun n => n }

theorem tally_injective : Function.Injective Supply.tally.idAt := by
  intro n m h
  have hlist := congrArg List.length (String.ofList_injective h)
  simpa using hlist

end ClassAtlas
