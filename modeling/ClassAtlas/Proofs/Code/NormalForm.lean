import ClassAtlas.Proofs.Code.BaseNames
import ClassAtlas.Proofs.Code.RoundTrip

/-!
# The normal form of declarations

A diagram that was read from a text is declarable, whatever the text: what is read of base lists
follows the convention on names, since the names decide how it is read. So writing such a diagram
and reading it again loses nothing that is written, and the text is the same from then on.
-/

namespace ClassAtlas.Code

open Text

variable {text : String}

/-! ## What relations a text declares -/

theorem bases_of_ancestry {before : Option Char} {s r : List Char} {list : Ancestry}
    (h : ancestry before s = some (list, r)) : ∃ t, list.bases = baseNames t := by
  unfold ancestry at h
  simp only [guard_eq_some, Option.bind_eq_bind, Option.bind_eq_some_iff] at h
  obtain ⟨_, _, _, _, _, _, _, _, _, _, ⟨t, _⟩, _, hlist⟩ := h
  obtain ⟨rfl, _⟩ := Prod.mk.inj (Option.some.inj hlist)
  exact ⟨t, rfl⟩

/-- A base is a parent only if nothing says that it is an interface. -/
theorem of_mem_relationsIn {r : Relation} (h : r ∈ relationsIn text) :
    (r.kind = .inheritance ∧ r.target ∈ declaredNames "class" text ∧
        isInterfaceName r.target = false ∨
      r.kind = .implementation ∧
        (r.target ∈ interfacesIn text ∨ isInterfaceName r.target = true)) ∧
      isIdentifier r.target.toList = true ∧ r.target ≠ "where" := by
  obtain ⟨hr, hdeclares⟩ := List.mem_filter.mp h
  have htarget := (of_decide_eq_true hdeclares).2
  obtain ⟨list, hlist, hr⟩ := List.mem_flatMap.mp hr
  obtain ⟨_, _, _, _, hfound⟩ := mem_occurrencesFrom hlist
  obtain ⟨t, hbases⟩ := bases_of_ancestry hfound
  obtain ⟨⟨base, i⟩, hmem, hbase⟩ := List.mem_filterMap.mp hr
  have hname : base ∈ baseNames t := hbases ▸ List.fst_mem_of_mem_zipIdx hmem
  dsimp only at hbase
  split at hbase
  · -- an interface, declared or so named, is implemented
    rename_i hinterface
    obtain rfl := Option.some.inj hbase
    exact ⟨Or.inr ⟨rfl, hinterface⟩, of_mem_baseNames hname⟩
  · -- any other base is the parent if it comes first, and its class is declared
    rename_i hnot
    rw [not_or] at hnot
    split at hbase
    · obtain rfl := Option.some.inj hbase
      exact ⟨Or.inl ⟨rfl, htarget.resolve_right hnot.1, by simpa using hnot.2⟩,
        of_mem_baseNames hname⟩
    · exact absurd hbase (by simp)

theorem commentLine?_of_mem_relationsIn {r : Relation} (h : r ∈ relationsIn text) :
    commentLine? r = none := by
  rcases (of_mem_relationsIn h).1 with ⟨hk, _⟩ | ⟨hk, _⟩ <;> simp [commentLine?, hk]

/-! ## Boxes -/

theorem filterMap_memberLine (type : String)
    (htype : (MemberLine.typeText (' ' :: type.toList)).isSome = true) {names : List String}
    (hnames : ∀ name ∈ names, isIdentifier name.toList = true) :
    (names.map (memberLine "+" · type)).filterMap memberName? = names := by
  rw [List.filterMap_map]
  refine (List.filterMap_congr ?_).trans List.filterMap_some
  intro name hname
  obtain ⟨t, ht⟩ := Option.isSome_iff_exists.mp htype
  have hword := isWord_of_isIdentifier (hnames name hname)
  rw [Function.comp_apply, memberName?_memberLine (by simp) hword, if_pos (hnames name hname), ht]
  rfl

/-- What was written of a box and read back is written in the same way again. -/
theorem of_members {k : NodeKind} (label : String) (members : Members) :
    Box.of k label (Box.of k label members).members = Box.of k label members := by
  have hnames := isIdentifier_of_mem_box k label members
  have hattributes := filterMap_memberLine "string" (by decide +kernel)
    fun name h => hnames name (List.mem_append_left _ h)
  have hmethods := filterMap_memberLine "void" (by decide +kernel)
    fun name h => hnames name (List.mem_append_right _ h)
  unfold Box.of Box.members at *
  -- the lines of a box name its members again, by the same rule for either kind
  by_cases hk : k = .interfaceBox
  · simp only [hk, if_true, decide_true] at hmethods ⊢
    rw [hmethods]
  · simp only [hk, if_false, decide_false, Bool.false_eq_true] at hattributes hmethods ⊢
    rw [hattributes, hmethods]

/-- The boxes of a sort are read back as they were written. -/
theorem boxes_shapesIn {K : Type} {d : Diagram K} {k : NodeKind} (hk : k.isKnown = true) :
    (shapesIn d (sortOf k) k).filterMap box? = (boxes d).filter fun b => b.sort = sortOf k := by
  unfold shapesIn
  rw [List.filterMap_map]
  refine (List.filterMap_congr ?_).trans List.filterMap_some
  intro b hb
  rw [boxes_of_kind hk] at hb
  obtain ⟨n, hn, rfl⟩ := List.mem_map.mp hb
  have hlabel := (mem_labelledNodes.mp (List.mem_filter.mp hn).1).2
  obtain rfl : n.kind = k := of_decide_eq_true (List.mem_filter.mp hn).2
  show (if n.kind.isKnown = true ∧ n.label ≠ "" then _ else none) = _
  rw [if_pos ⟨hk, hlabel⟩]
  exact congrArg some (of_members n.label _)

theorem boxes_links (rs : List Relation) : (rs.map Relation.shape).filterMap box? = [] := by
  rw [List.filterMap_map]
  exact List.filterMap_eq_nil_iff.mpr fun _ _ => rfl

/-! ## Bases -/

section

variable {rs : List Relation} {label : String} {r : Relation}

theorem targetsIn_append (rs rs' : List Relation) (kind : ArrowKind) (label : String) :
    targetsIn (rs ++ rs') kind label = targetsIn rs kind label ++ targetsIn rs' kind label :=
  List.filterMap_append

theorem targetsIn_map (kind kind' : ArrowKind) (label : String) (names : List String) :
    targetsIn (names.map (⟨label, ·, kind'⟩)) kind label = if kind' = kind then names else [] := by
  unfold targetsIn
  rw [List.filterMap_map]
  split
  · rename_i hkind
    refine (List.filterMap_congr ?_).trans List.filterMap_some
    intro name _
    exact if_pos ⟨hkind, rfl⟩
  · rename_i hkind
    exact List.filterMap_eq_nil_iff.mpr fun name _ => if_neg fun h => hkind h.1

theorem of_mem_linksIn (h : r ∈ linksIn rs label) :
    r.source = label ∧ (r.kind = .inheritance ∨ r.kind = .implementation) := by
  rcases List.mem_append.mp h with h | h
  · obtain ⟨_, _, rfl⟩ := List.mem_map.mp h
    exact ⟨rfl, Or.inl rfl⟩
  · obtain ⟨_, _, rfl⟩ := List.mem_map.mp h
    exact ⟨rfl, Or.inr rfl⟩

/-- The relations that are read back have the same bases. -/
theorem basesIn_linksIn (rs : List Relation) (label : String) :
    basesIn (linksIn rs label) label = basesIn rs label := by
  unfold basesIn linksIn
  rw [targetsIn_append, targetsIn_append, targetsIn_map, targetsIn_map, targetsIn_map,
    targetsIn_map, if_pos rfl, if_pos rfl, if_neg (by decide), if_neg (by decide),
    List.append_nil, List.nil_append, List.take_take, Nat.min_self,
    eraseDups_of_nodup (nodup_eraseDups _)]

/-- Among the relations of several classes those of one class are its own. -/
theorem basesIn_flatMap {f : String → List Relation} (hf : ∀ x, ∀ r ∈ f x, r.source = x)
    {xs : List String} (hn : xs.Nodup) (hx : label ∈ xs) :
    basesIn (xs.flatMap f) label = basesIn (f label) label := by
  have hother (kind : ArrowKind) {ys : List String} (hy : label ∉ ys) :
      targetsIn (ys.flatMap f) kind label = [] := by
    refine List.filterMap_eq_nil_iff.mpr ?_
    intro r hr
    refine if_neg ?_
    rintro ⟨_, hsource⟩
    obtain ⟨y, hmem, hr⟩ := List.mem_flatMap.mp hr
    rw [hf y r hr] at hsource
    exact hy (hsource ▸ hmem)
  have htargets (kind : ArrowKind) : targetsIn (xs.flatMap f) kind label =
      targetsIn (f label) kind label := by
    -- the label stands once in the list, and what stands before and behind it adds nothing
    obtain ⟨ys, zs, rfl⟩ := List.append_of_mem hx
    rw [List.nodup_append, List.nodup_cons] at hn
    obtain ⟨_, ⟨hzs, _⟩, hys⟩ := hn
    have hnot : label ∉ ys := fun h => hys label h label (by simp) rfl
    rw [List.flatMap_append, List.flatMap_cons, targetsIn_append, targetsIn_append,
      hother kind hnot, hother kind hzs, List.nil_append, List.append_nil]
  unfold basesIn
  rw [htargets, htargets]

end

/-! ## Diagrams that say what was written -/

section

variable {K K' : Type} {d : Diagram K} {d' : Diagram K'}

/-- The relations that come back are those that stand in base lists. -/
theorem relations_of_write (h : Declarable d) (hd' : d'.sketch = sketchIn (write d)) :
    d'.relations = (labelsIn d .classType).flatMap (linksIn d.relations) := by
  refine relations_of_sketch (hd'.trans (sketchIn_write h)) ?_ ?_
  · intro s hs
    rcases List.mem_append.mp hs with hs | hs
    · obtain ⟨b, _, rfl⟩ := List.mem_map.mp hs
      rfl
    · obtain ⟨b, _, rfl⟩ := List.mem_map.mp hs
      rfl
  · intro r hr
    obtain ⟨label, _, hr⟩ := List.mem_flatMap.mp hr
    rcases (of_mem_linksIn hr).2 with hk | hk <;> rw [hk] <;> rfl

/-- The boxes that come back are the same, the classes first. -/
theorem boxes_of_write (h : Declarable d) (hd' : d'.sketch = sketchIn (write d)) :
    boxes d' = (boxes d).filter (fun b => b.sort = .classType) ++
      (boxes d).filter (fun b => b.sort = .interfaceType) := by
  have hclasses : (shapesIn d .classType .classBox).filterMap box? = _ :=
    boxes_shapesIn (k := .classBox) rfl
  have hinterfaces : (shapesIn d .interfaceType .interfaceBox).filterMap box? = _ :=
    boxes_shapesIn (k := .interfaceBox) rfl
  rw [boxes, hd', sketchIn_write h, List.filterMap_append, List.filterMap_append, boxes_links,
    hclasses, hinterfaces, List.append_nil]
  rfl

theorem nodup_labelsIn (h : Declarable d) (sort : TypeSort) : (labelsIn d sort).Nodup := by
  have hall := h.nodup
  rw [← map_label_boxes] at hall
  exact hall.sublist (List.filter_sublist.map _)

/-- A declarable diagram with its classes before its interfaces and without comments is written in
the same way again. -/
theorem write_of_write (h : Declarable d) (hd' : d'.sketch = sketchIn (write d))
    (horder : (boxes d).filter (fun b => b.sort = .classType) ++
      (boxes d).filter (fun b => b.sort = .interfaceType) = boxes d)
    (hcomments : d.relations.filterMap commentLine? = []) : write d' = write d := by
  have hboxes : boxes d' = boxes d := (boxes_of_write h hd').trans horder
  refine write_congr hboxes ?_ ?_
  · intro b hb hclass
    rw [hboxes] at hb
    have hlabel : b.label ∈ labelsIn d .classType :=
      List.mem_map_of_mem (List.mem_filter.mpr ⟨hb, by simp [Box.sort, hclass]⟩)
    -- other classes have other labels, so they add nothing to the bases of this one
    rw [relations_of_write h hd', basesIn_flatMap (fun _ _ hr => (of_mem_linksIn hr).1)
      (nodup_labelsIn h .classType) hlabel, basesIn_linksIn]
  · rw [relations_of_write h hd', hcomments, List.filterMap_eq_nil_iff]
    intro r hr
    obtain ⟨label, _, hr⟩ := List.mem_flatMap.mp hr
    rcases (of_mem_linksIn hr).2 with hk | hk <;> simp [commentLine?, hk]

end

/-! ## Diagrams that say what a text says -/

section

variable {K : Type} {d : Diagram K}

theorem relations_of_sketchIn (h : d.sketch = sketchIn text) : d.relations = relationsIn text := by
  refine relations_of_sketch h ?_ ?_
  · intro s hs
    rcases List.mem_append.mp hs with hs | hs
    · obtain ⟨_, _, rfl⟩ := List.mem_map.mp hs
      rfl
    · obtain ⟨_, _, rfl⟩ := List.mem_map.mp hs
      rfl
  · intro r hr
    rcases isKnown_of_mem_relations (List.mem_filter.mp hr).1 with hk | hk <;> rw [hk] <;> rfl

/-- The classes of a text come first, and then its interfaces. -/
theorem boxes_of_sketchIn (h : d.sketch = sketchIn text) : boxes d =
    ((declaredNames "class" text).map fun name => .of .classBox name (membersIn text name)) ++
      (interfacesIn text).map fun name => .of .interfaceBox name (membersIn text name) := by
  have hboxes (k : NodeKind) {names : List String} (hk : k.isKnown = true)
      (hnames : ∀ name ∈ names, name ≠ "") :
      (names.map fun name => Shape.box k name (membersIn text name)).filterMap box? =
        names.map fun name => .of k name (membersIn text name) := by
    rw [List.filterMap_map, ← List.filterMap_eq_map']
    exact List.filterMap_congr fun name hname => if_pos ⟨hk, hnames name hname⟩
  have hclasses := ne_empty_of_mem_declaredNames "class" text
  have hinterfaces : ∀ name ∈ interfacesIn text, name ≠ "" := fun name h =>
    ne_empty_of_mem_declaredNames _ _ name (List.mem_filter.mp h).1
  rw [boxes, h, sketchIn, List.filterMap_append, List.filterMap_append, boxes_links,
    List.append_nil, hboxes _ rfl hclasses, hboxes _ rfl hinterfaces]

theorem filter_boxes_of_sketchIn (h : d.sketch = sketchIn text) :
    (boxes d).filter (fun b => b.sort = .classType) =
        (declaredNames "class" text).map (fun name => .of .classBox name (membersIn text name)) ∧
      (boxes d).filter (fun b => b.sort = .interfaceType) =
        (interfacesIn text).map fun name => .of .interfaceBox name (membersIn text name) := by
  -- boxes made of one kind are all of the sort of that kind
  have hkeep (k : NodeKind) (names : List String) :
      (names.map fun name => Box.of k name (membersIn text name)).filter
        (fun b => b.sort = sortOf k) = names.map fun name => .of k name (membersIn text name) := by
    rw [List.filter_eq_self]
    intro b hb
    obtain ⟨name, _, rfl⟩ := List.mem_map.mp hb
    exact decide_eq_true (sort_of k name _)
  have hdrop {k : NodeKind} {sort : TypeSort} (h : sortOf k ≠ sort) (names : List String) :
      (names.map fun name => Box.of k name (membersIn text name)).filter
        (fun b => b.sort = sort) = [] := by
    rw [List.filter_eq_nil_iff]
    intro b hb
    obtain ⟨name, _, rfl⟩ := List.mem_map.mp hb
    rw [sort_of]
    simpa using h
  rw [boxes_of_sketchIn h, List.filter_append, List.filter_append]
  refine ⟨?_, ?_⟩
  · rw [hdrop (k := .interfaceBox) (by decide), List.append_nil]
    exact hkeep .classBox _
  · rw [hdrop (k := .classBox) (by decide), List.nil_append]
    exact hkeep .interfaceBox _

theorem labelsIn_of_sketchIn (h : d.sketch = sketchIn text) :
    labelsIn d .classType = declaredNames "class" text ∧
      labelsIn d .interfaceType = interfacesIn text := by
  obtain ⟨hclasses, hinterfaces⟩ := filter_boxes_of_sketchIn h
  unfold labelsIn
  rw [hclasses, hinterfaces, List.map_map, List.map_map]
  exact ⟨List.map_id _, List.map_id _⟩

/-- **Whatever text a diagram was read from, it is declarable.** -/
theorem declarable_of_sketchIn (h : d.sketch = sketchIn text) : Declarable d := by
  obtain ⟨hclasses, hinterfaces⟩ := labelsIn_of_sketchIn h
  have hlabels : d.labels = declaredNames "class" text ++ interfacesIn text := by
    rw [← map_label_boxes, boxes_of_sketchIn h, List.map_append, List.map_map, List.map_map]
    exact congrArg₂ (· ++ ·) (List.map_id _) (List.map_id _)
  have hrelation {r : Relation} (hr : r ∈ d.relations) : r ∈ relationsIn text := by
    rwa [relations_of_sketchIn h] at hr
  exact
    { labels := by
        intro label hlabel
        rw [hlabels] at hlabel
        rcases List.mem_append.mp hlabel with h | h
        · exact isWord_of_mem_declaredNames h
        · exact isWord_of_mem_declaredNames (List.mem_filter.mp h).1
      nodup := by
        rw [hlabels, List.nodup_append]
        refine ⟨nodup_declaredNames _ _, (nodup_declaredNames _ _).filter _, ?_⟩
        -- interfaces are those declared names that no class has
        rintro name hclass _ hinterface rfl
        exact of_decide_eq_true (List.mem_filter.mp hinterface).2 hclass
      parents := by
        intro r hr hkind _
        rw [hclasses]
        rcases (of_mem_relationsIn (hrelation hr)).1 with ⟨_, h⟩ | ⟨hk, _⟩
        · exact h
        · exact absurd (hk.symm.trans hkind) (by decide)
      interfaces := by
        intro r hr hkind _
        rw [hinterfaces]
        rcases (of_mem_relationsIn (hrelation hr)).1 with ⟨hk, _⟩ | ⟨_, h⟩
        · exact absurd (hk.symm.trans hkind) (by decide)
        · exact h
      bases := by
        intro r hr _
        exact (of_mem_relationsIn (hrelation hr)).2
      comments := by
        intro r hr hcomment
        rw [commentLine?_of_mem_relationsIn (hrelation hr)] at hcomment
        exact absurd hcomment (by simp) }

/-- What was read is written in the same way after it has been written and read. -/
theorem write_again {K' : Type} {d' : Diagram K'} (h : d.sketch = sketchIn text)
    (hd' : d'.sketch = sketchIn (write d)) : write d' = write d := by
  have hcomments : d.relations.filterMap commentLine? = [] := by
    rw [relations_of_sketchIn h, List.filterMap_eq_nil_iff]
    intro r hr
    exact commentLine?_of_mem_relationsIn hr
  refine write_of_write (declarable_of_sketchIn h) hd' ?_ hcomments
  obtain ⟨hclasses, hinterfaces⟩ := filter_boxes_of_sketchIn h
  rw [hclasses, hinterfaces, boxes_of_sketchIn h]

end

/-- **The normal form.** Reading any text at all and writing what was read gives a text that reading
and writing do not change any more. -/
theorem written_text_is_stable (engine : Engine Float) (settings settings' : ReadSettings)
    (supply supply' : Supply) (hid : Function.Injective supply.idAt)
    (hid' : Function.Injective supply'.idAt) (text : String) :
    engine.Gives settings (fun a =>
        engine.Gives settings' (fun b => write b.diagram = write a.diagram)
          (read engine settings' supply' (write a.diagram)))
      (read engine settings supply text) :=
  (gives_sketch engine settings hid text).imp fun a _ ha =>
    (gives_sketch engine settings' hid' (write a.diagram)).imp fun _ _ hb => write_again ha hb

/-- A text with a class that is declared twice and has three bases, a keyword for a name, a base
list that begins with a line break, and a method with a body. -/
def straysText : String :=
  "class Cat : Pet, IRun, Pet where T : new\nclass Cat : Beast \x7b int age(); \x7d\n" ++
    "class class Pet : IRun interface IRun \x7b void Run() \x7b \x7d \x7d class Beast :\nCat"

theorem written_text_is_stable_strays :
    Function.Injective Supply.tally.idAt ∧
      ∃ a, read layeredEngine {} .tally straysText = .ok a ∧
        ∃ b, read layeredEngine {} .tally (write a.diagram) = .ok b ∧
          write b.diagram = write a.diagram := by
  obtain ⟨a, hread, hstable⟩ := (written_text_is_stable layeredEngine {} {} .tally .tally
    tally_injective tally_injective straysText).exists_ok (by decide)
  exact ⟨tally_injective, a, hread, hstable.exists_ok (by decide)⟩

end ClassAtlas.Code
