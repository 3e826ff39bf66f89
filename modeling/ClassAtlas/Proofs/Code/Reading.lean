import ClassAtlas.Code.Reader
import ClassAtlas.Proofs.Assembly.Growth
import ClassAtlas.Proofs.Declared

/-!
# What a reading of class declarations says

The sketch of the diagram that is read from a text, for any text at all, in terms of what the scans
of the text find: the declared classes, then the declared interfaces that are no classes, each with
the members of all its blocks, then an arrow for every relation between declared names.
-/

namespace ClassAtlas.Code

open Text

/-- The interfaces that a text declares and that are no classes. -/
def interfacesIn (text : String) : List String :=
  (declaredNames "interface" text).filter fun name => decide (name ∉ declaredNames "class" text)

/-- The members in all blocks of a name. -/
def membersIn (text name : String) : Members :=
  Members.join ((bodies name text.toList).map declaredMembers)

/-- A text declares both names of a relation. -/
def Declares (text : String) (r : Relation) : Prop :=
  (r.source ∈ declaredNames "class" text ∨ r.source ∈ interfacesIn text) ∧
    (r.target ∈ declaredNames "class" text ∨ r.target ∈ interfacesIn text)

instance (text : String) (r : Relation) : Decidable (Declares text r) :=
  inferInstanceAs (Decidable (_ ∧ _))

/-- The relations between declared names. -/
def relationsIn (text : String) : List Relation :=
  (relations (interfacesIn text) text).filter fun r => decide (Declares text r)

/-- What a text says: its classes, its interfaces, and the relations between them. -/
def sketchIn (text : String) : List Shape :=
  ((declaredNames "class" text).map fun name => .box .classBox name (membersIn text name)) ++
    ((interfacesIn text).map fun name => .box .interfaceBox name (membersIn text name)) ++
    (relationsIn text).map Relation.shape

variable {settings : ReadSettings} {supply : Supply}

theorem isKnown_of_mem_relations {interfaces : List String} {text : String} {r : Relation}
    (h : r ∈ relations interfaces text) : r.kind = .implementation ∨ r.kind = .inheritance := by
  unfold relations Ancestry.relations at h
  obtain ⟨list, _, hr⟩ := List.mem_flatMap.mp h
  obtain ⟨⟨base, i⟩, _, hb⟩ := List.mem_filterMap.mp hr
  dsimp only at hb
  split at hb
  · obtain rfl := Option.some.inj hb
    exact Or.inl rfl
  · split at hb
    · obtain rfl := Option.some.inj hb
      exact Or.inr rfl
    · exact absurd hb (by simp)

section

variable (hid : Function.Injective supply.idAt) (text : String)

include hid

theorem declareTypes_spec :
    let a := declareTypes (.start settings supply) text
    a.Sound ∧ a.names = declaredNames "class" text ++ interfacesIn text ∧
      a.diagram.sketch = ((declaredNames "class" text).map fun name => .box .classBox name {}) ++
        (interfacesIn text).map fun name => .box .interfaceBox name {} := by
  have hne := ne_empty_of_mem_declaredNames
  have h0 := Assembly.sound_start settings hid
  have h1 := Assembly.sound_declareAll h0 (hne "class" text)
    (show NodeKind.isKnown .classBox = true from rfl)
  have hstart : (Assembly.start settings supply).names = [] := rfl
  -- the classes come first, so the assembly has their names when the interfaces come
  have hnames1 : ((Assembly.start settings supply).declareAll .classBox
      (declaredNames "class" text)).names = declaredNames "class" text := by
    rw [Assembly.names_declareAll _ _ (nodup_declaredNames _ _), hstart]
    simp
  refine ⟨Assembly.sound_declareAll h1 (hne _ _) rfl, ?_, ?_⟩
  · show (Assembly.declareAll _ _ _).names = _
    rw [Assembly.names_declareAll _ _ (nodup_declaredNames _ _), hnames1]
    rfl
  · show (Assembly.declareAll _ _ _).diagram.sketch = _
    rw [Assembly.sketch_declareAll h1 (nodup_declaredNames _ _) (hne _ _) rfl, hnames1,
      Assembly.sketch_declareAll h0 (nodup_declaredNames _ _) (hne _ _) rfl, hstart]
    simp [Assembly.start, Diagram.sketch, interfacesIn]

/-- An interface is a name that is declared as one and became a box of that kind. -/
theorem interfaceNames_eq :
    interfaceNames (declareTypes (.start settings supply) text) text = interfacesIn text := by
  obtain ⟨hsound, hnames, hsketch⟩ := @declareTypes_spec settings supply hid text
  unfold interfaceNames interfacesIn
  refine List.filter_congr ?_
  intro name hname
  have hmem : name ∈ (declareTypes (.start settings supply) text).names := by
    rw [hnames]
    by_cases hc : name ∈ declaredNames "class" text
    · exact List.mem_append_left _ hc
    · exact List.mem_append_right _ (List.mem_filter.mpr ⟨hname, by simpa using hc⟩)
  obtain ⟨n, hn⟩ := hsound.filed.exists_node? hmem
  have hin := hsound.filed.node?_eq_some_iff.mp hn
  have hlabel := (Assembly.label_of_mem hsound hin).1
  have hshape : Shape.box n.kind name (n.members.getD {}) ∈
      (declareTypes (.start settings supply) text).diagram.sketch := by
    rw [← hlabel]
    exact List.mem_map_of_mem hin.1
  rw [hn]
  rw [hsketch, List.mem_append, List.mem_map, List.mem_map] at hshape
  -- a name that is declared as both has the box of a class
  rcases hshape with ⟨c, hc, heq⟩ | ⟨i, hi, heq⟩
  · obtain ⟨hk, rfl, _⟩ := Shape.box.inj heq
    simp [hc, ← hk]
  · obtain ⟨hk, rfl, _⟩ := Shape.box.inj heq
    have hnot := (List.mem_filter.mp hi).2
    simp only [decide_eq_true_eq] at hnot
    simp [hnot, ← hk]

omit hid in
theorem ne_empty_of_mem_names :
    ∀ name ∈ declaredNames "class" text ++ interfacesIn text, name ≠ "" := by
  intro name hname
  rcases List.mem_append.mp hname with h | h
  · exact ne_empty_of_mem_declaredNames _ _ _ h
  · exact ne_empty_of_mem_declaredNames _ _ _ (List.mem_filter.mp h).1

/-- The diagram before any member is added to it. -/
theorem related_spec :
    let a := (declareTypes (.start settings supply) text).relateAll
      (relations (interfacesIn text) text)
    a.Sound ∧ a.names = declaredNames "class" text ++ interfacesIn text ∧
      a.diagram.sketch = ((declaredNames "class" text).map fun name => .box .classBox name {}) ++
        ((interfacesIn text).map fun name => .box .interfaceBox name {}) ++
        (relationsIn text).map Relation.shape := by
  obtain ⟨hsound, hnames, hsketch⟩ := @declareTypes_spec settings supply hid text
  have hknown : ∀ r ∈ relations (interfacesIn text) text, r.kind.isKnown = true := by
    intro r hr
    rcases isKnown_of_mem_relations hr with hk | hk <;> rw [hk] <;> rfl
  -- the assembly knows a relation if the text declares both its ends
  have hknows : (fun r => decide (Assembly.Knows
      (declareTypes (.start settings supply) text) r)) = fun r => decide (Declares text r) := by
    funext r
    refine decide_eq_decide.mpr ?_
    unfold Assembly.Knows Declares
    rw [hnames, List.mem_append, List.mem_append]
  refine ⟨Assembly.sound_relateAll hsound hknown, ?_, ?_⟩
  · rw [Assembly.names_relateAll, hnames]
  · rw [Assembly.sketch_relateAll hsound hknown, hknows, hsketch]
    rfl

omit hid in
theorem addMembers_boxes (k : NodeKind) {names all : List String}
    (hall : ∀ name ∈ names, name ∈ all) :
    (names.map fun name => Shape.box k name {}).map (Shape.addMembers fun label =>
        if label ∈ all then Members.join ((bodies label text.toList).map declaredMembers) else {}) =
      names.map fun name => Shape.box k name (membersIn text name) := by
  rw [List.map_map]
  refine List.map_congr_left ?_
  intro name hname
  simp only [Function.comp_apply, Shape.addMembers, if_pos (hall name hname),
    members_empty_append, membersIn]

theorem sketch_assemble : (assemble settings supply text).diagram.sketch = sketchIn text := by
  obtain ⟨hsound, hnames, hsketch⟩ := @related_spec settings supply hid text
  have hlabels := Assembly.labels_nodes hsound
  have hnodup := hsound.filed.names_nodup
  have hread : readMembers text.toList = fun a name =>
      a.enrichMany name ((bodies name text.toList).map declaredMembers) := by
    funext a name
    unfold readMembers Assembly.enrichMany
    rw [List.foldl_map]
  have hfilter : (declaredNames "class" text ++ interfacesIn text).filter
      (fun name => decide (name ≠ "")) = declaredNames "class" text ++ interfacesIn text :=
    List.filter_eq_self.mpr fun name hname => decide_eq_true (ne_empty_of_mem_names text name hname)
  rw [hnames] at hlabels hnodup
  unfold assemble
  dsimp only
  -- the names whose bodies are read are the declared ones
  rw [interfaceNames_eq hid, hlabels, hfilter, hread,
    (Assembly.enrichAll_spec hsound hnodup _).2, hsketch, List.map_append, List.map_append,
    addMembers_boxes text _ fun name h => List.mem_append_left _ h,
    addMembers_boxes text _ fun name h => List.mem_append_right _ h, List.map_map]
  rfl

end

/-! ## Readings -/

theorem grows_assemble (settings : ReadSettings) (supply : Supply) (text : String) :
    (Assembly.start settings supply).Grows (assemble settings supply text) := by
  unfold assemble
  refine .trans ?_ (Assembly.grows_foldl ?_ _ _)
  · refine .trans ?_ (Assembly.grows_foldl Assembly.grows_relate _ _)
    unfold declareTypes
    refine .trans ?_ (Assembly.grows_foldl (fun a name => Assembly.grows_declare a name _) _ _)
    exact Assembly.grows_foldl (fun a name => Assembly.grows_declare a name _) _ _
  · intro a name
    exact Assembly.grows_foldl (fun a _ => Assembly.grows_enrich a name _) _ _

/-- What is read is what was put together, with its boxes moved. -/
theorem gives_moved (engine : Engine Float) (settings : ReadSettings) (supply : Supply)
    (text : String) : engine.Gives settings (assemble settings supply text).Moves
      (read engine settings supply text) :=
  (grows_assemble settings supply text).gives_finish engine

/-- **What a reading says, for every text.** -/
theorem gives_sketch (engine : Engine Float) (settings : ReadSettings)
    (hid : Function.Injective supply.idAt) (text : String) :
    engine.Gives settings (fun a => a.diagram.sketch = sketchIn text)
      (read engine settings supply text) :=
  (gives_moved engine settings supply text).imp fun _ _ ha =>
    ha.sketch_eq.trans (sketch_assemble hid text)

end ClassAtlas.Code
