import Mathlib.Data.List.Nodup
import ClassAtlas.Proofs.Code.BaseLists
import ClassAtlas.Proofs.Code.OwnMembers
import ClassAtlas.Proofs.Code.Reading

/-!
# Reading a source

What is read from the text of a source is the source: a box for every class and interface at any
depth, with the members that stand directly in its body, and the arrows that the base lists declare.
No member, base or name of one type gets into another, however the types are nested.
-/

namespace ClassAtlas.Code

open Text

variable {text : String} {s : Source}

/-! ## Names and members -/

theorem declaredNames_class (hs : Renders text s) :
    declaredNames "class" text = s.names .classType :=
  declaredNames_source rfl (by decide +kernel) hs

theorem declaredNames_interface (hs : Renders text s) :
    declaredNames "interface" text = s.names .interfaceType :=
  declaredNames_source rfl (by decide +kernel) hs

theorem mem_sorted {sort : TypeSort} {t : Heading × Source} :
    t ∈ s.sorted sort ↔ t ∈ s.types ∧ t.1.sort = sort := by
  unfold Source.sorted
  rw [List.mem_filter, decide_eq_true_iff]

/-- No name is that of types of two sorts. -/
theorem sort_unique (hs : Renders text s) {t u : Heading × Source} (ht : t ∈ s.types)
    (hu : u ∈ s.types) (hname : t.1.name = u.1.name) : t = u :=
  List.inj_on_of_nodup_map hs.nodup ht hu hname

theorem interfacesIn_source (hs : Renders text s) :
    interfacesIn text = s.names .interfaceType := by
  unfold interfacesIn
  rw [declaredNames_interface hs, declaredNames_class hs, List.filter_eq_self]
  intro name hname
  refine decide_eq_true ?_
  intro hclass
  obtain ⟨t, ht, rfl⟩ := List.mem_map.mp hname
  obtain ⟨u, hu, heq⟩ := List.mem_map.mp hclass
  obtain ⟨ht, htsort⟩ := mem_sorted.mp ht
  obtain ⟨hu, husort⟩ := mem_sorted.mp hu
  rw [sort_unique hs hu ht heq, htsort] at husort
  exact absurd husort (by decide)

/-- Every type of a well-formed source is well-formed, and so is its body. -/
theorem wellFormed_of_mem_types (hs : s.WellFormed) :
    ∀ t ∈ s.types, t.1.WellFormed ∧ t.2.WellFormed := by
  induction s with
  | nil => intro t ht; exact absurd ht (by simp [Source.types])
  | member m rest ih => exact ih hs.2
  | type h inner rest ihInner ihRest =>
    obtain ⟨hh, hinner, hrest⟩ := hs
    intro t ht
    rcases List.mem_cons.mp ht with rfl | ht
    · exact ⟨hh, hinner⟩
    · rcases List.mem_append.mp ht with ht | ht
      · exact ihInner hinner t ht
      · exact ihRest hrest t ht

theorem membersIn_source (hs : Renders text s) {t : Heading × Source} (ht : t ∈ s.types)
    (hsort : t.1.sort.word ∈ typeWords) : membersIn text t.1.name = t.2.lines := by
  obtain ⟨hh, hinner⟩ := wellFormed_of_mem_types hs.wellFormed t ht
  unfold membersIn
  rw [bodies_source hs ht hsort hh.name, List.map_singleton, declaredMembers_body hh hinner,
    join_cons]
  exact members_append_empty _

/-! ## Relations -/

/-- The relations of one class, of which those to unknown names are dropped. -/
theorem relations_heading (hs : Renders text s) {h : Heading}
    (hname : h.name ∈ s.names .classType) :
    ((⟨h.name, h.bases.map (·.name)⟩ : Ancestry).relations (s.names .interfaceType)).filter
        (fun r => decide (Declares text r)) =
      h.relations (s.names .classType) (s.names .interfaceType) := by
  unfold Ancestry.relations Heading.relations
  rw [List.zipIdx_map, List.filterMap_map, List.filter_filterMap]
  refine congrArg (List.filterMap · _) (funext ?_)
  intro pair
  obtain ⟨b, i⟩ := pair
  have hdeclares (kind : ArrowKind) : Declares text ⟨h.name, b.name, kind⟩ ↔
      b.name ∈ s.names .classType ∨ b.name ∈ s.names .interfaceType := by
    unfold Declares
    rw [declaredNames_class hs, interfacesIn_source hs]
    exact ⟨fun hd => hd.2, fun hd => ⟨Or.inl hname, hd⟩⟩
  -- a base whose name is not declared is dropped on both sides
  by_cases hknown : b.name ∈ s.names .classType ∨ b.name ∈ s.names .interfaceType
  · have hboth : ¬ (b.name ∉ s.names .classType ∧ b.name ∉ s.names .interfaceType) := by
      rwa [not_and_or, not_not, not_not]
    simp only [Function.comp_apply, Prod.map_apply, id_eq, if_neg hboth]
    split
    · simp [Option.filter, hdeclares, hknown]
    · split
      · simp [Option.filter, hdeclares, hknown]
      · rfl
  · have hboth : b.name ∉ s.names .classType ∧ b.name ∉ s.names .interfaceType := not_or.mp hknown
    simp only [Function.comp_apply, Prod.map_apply, id_eq, if_pos hboth]
    split
    · simp [Option.filter, hdeclares, hboth]
    · split
      · simp [Option.filter, hdeclares, hboth]
      · rfl

/-- What the base list of one type says, if it is that of a class. -/
theorem relations_type (hs : Renders text s) {t : Heading × Source} (ht : t ∈ s.types) :
    (t.1.baseList?.toList.flatMap (·.relations (s.names .interfaceType))).filter
        (fun r => decide (Declares text r)) =
      if t.1.sort = .classType then t.1.relations (s.names .classType) (s.names .interfaceType)
      else [] := by
  -- only a class with bases has a list of them to read
  by_cases hsort : t.1.sort = .classType
  · rw [if_pos hsort]
    have hname : t.1.name ∈ s.names .classType :=
      List.mem_map_of_mem (mem_sorted.mpr ⟨ht, hsort⟩)
    by_cases hbases : t.1.bases = []
    · have hnone : t.1.baseList? = none := by simp [Heading.baseList?, hbases]
      have hnil : t.1.relations (s.names .classType) (s.names .interfaceType) = [] := by
        simp [Heading.relations, hbases]
      rw [hnone, hnil]
      rfl
    · have hsome : t.1.baseList? = some ⟨t.1.name, t.1.bases.map (·.name)⟩ := by
        simp [Heading.baseList?, hsort, hbases]
      rw [hsome, Option.toList_some, List.flatMap_singleton]
      exact relations_heading hs hname
  · have hnone : t.1.baseList? = none := by simp [Heading.baseList?, hsort]
    rw [if_neg hsort, hnone]
    rfl

theorem relationsIn_source (hs : Renders text s) : relationsIn text = s.relations := by
  unfold relationsIn relations Source.relations Source.sorted
  rw [interfacesIn_source hs, ancestries_source hs, List.filterMap_eq_flatMap_toList,
    List.flatMap_assoc, List.filter_flatMap, flatMap_filter]
  refine List.flatMap_congr ?_
  intro t ht
  rw [relations_type hs ht]
  exact if_congr decide_eq_true_iff.symm rfl rfl

/-! ## The sketch -/

theorem sketchIn_source (hs : Renders text s) : sketchIn text =
      ((s.sorted .classType).map fun t => .box .classBox t.1.name t.2.lines) ++
      ((s.sorted .interfaceType).map fun t => .box .interfaceBox t.1.name t.2.lines) ++
      s.relations.map Relation.shape := by
  have hboxes {sort : TypeSort} {kind : NodeKind} (hsort : sort.word ∈ typeWords) :
      ((s.names sort).map fun name => Shape.box kind name (membersIn text name)) =
        (s.sorted sort).map fun t => Shape.box kind t.1.name t.2.lines := by
    unfold Source.names
    rw [List.map_map]
    refine List.map_congr_left ?_
    intro t ht
    obtain ⟨hmem, rfl⟩ := mem_sorted.mp ht
    rw [Function.comp_apply, membersIn_source hs hmem hsort]
  rw [sketchIn, declaredNames_class hs, interfacesIn_source hs, relationsIn_source hs,
    hboxes (by decide +kernel), hboxes (by decide +kernel)]

/-- **A nested source is read back.** For every tree of type declarations with distinct names, in
any layout, the diagram that is read from its text has one box for every class and then one for
every interface, at any depth and in the order of the text. Each box has exactly the members that
stand in its own body, and the arrows are the relations that the base lists declare. -/
theorem nested_source_recovered (engine : Engine Float) (settings : ReadSettings)
    (supply : Supply) (hid : Function.Injective supply.idAt) (s : Source) (hs : s.WellFormed)
    (hnames : (s.types.map (·.1.name)).Nodup) (trailer : List Char)
    (htrailer : ∀ c ∈ trailer, isBlank c = true) :
    engine.Gives settings (fun a => a.diagram.sketch =
        ((s.sorted .classType).map fun t => .box .classBox t.1.name t.2.lines) ++
        ((s.sorted .interfaceType).map fun t => .box .interfaceBox t.1.name t.2.lines) ++
        s.relations.map Relation.shape)
      (read engine settings supply (String.ofList (s.chars ++ trailer))) := by
  have hrenders : Renders (String.ofList (s.chars ++ trailer)) s :=
    ⟨hs, hnames, trailer, String.toList_ofList, silent_blanks isWord_typeWords htrailer⟩
  exact (gives_sketch engine settings hid _).imp fun _ _ ha => ha.trans (sketchIn_source hrenders)

/-- A class with a class, an interface and a structure inside it, and a class behind it that has the
nested class for its parent. -/
def shelter : Source :=
  .type ⟨[], .classType, "Shelter", [⟨"IHome", []⟩], ['\n'], ['\n']⟩
    (.member ⟨['\n'], "private", ⟨"List", ["string"]⟩, "names", .property⟩
      (.type ⟨['\n'], .classType, "Cage", [], ['\n'], ['\n']⟩
        (.member
          ⟨['\n'], "public", ⟨"void", []⟩, "Open", .method [⟨⟨"int", []⟩, "key"⟩] .empty⟩ .nil)
        (.type ⟨['\n'], .interfaceType, "IHome", [], ['\n'], ['\n']⟩
          (.type ⟨['\n'], .structType, "Size", [], [], []⟩
            (.member ⟨['\n'], "public", ⟨"int", []⟩, "width", .property⟩ .nil) .nil)
          (.member ⟨['\n'], "internal", ⟨"bool", []⟩, "Full", .method [] .empty⟩ .nil))))
    (.type
      ⟨['\n'], .classType, "Kennel", [⟨"Cage", []⟩, ⟨"IHome", []⟩, ⟨"Shelter", []⟩], ['\n'], []⟩
      .nil .nil)

theorem nested_source_recovered_shelter :
    Function.Injective Supply.tally.idAt ∧ shelter.WellFormed ∧
      (shelter.types.map (·.1.name)).Nodup ∧ (∀ c ∈ ['\n'], isBlank c = true) ∧
      ∃ a, read layeredEngine {} .tally (String.ofList (shelter.chars ++ ['\n'])) = .ok a ∧
        a.diagram.sketch =
          [.box .classBox "Shelter" ⟨["- names: List<string>"], ["# Full: bool"]⟩,
            .box .classBox "Cage" ⟨[], ["+ Open: void"]⟩,
            .box .classBox "Kennel" {},
            .box .interfaceBox "IHome" {},
            .link .implementation (some ("Shelter", "IHome")),
            .link .inheritance (some ("Kennel", "Cage")),
            .link .implementation (some ("Kennel", "IHome"))] := by
  have hwellFormed : shelter.WellFormed := by decide +kernel
  have hnames : (shelter.types.map (·.1.name)).Nodup := by decide +kernel
  have htrailer : ∀ c ∈ ['\n'], isBlank c = true := by decide
  obtain ⟨a, hread, hsketch⟩ := (nested_source_recovered layeredEngine {} .tally tally_injective
    shelter hwellFormed hnames ['\n'] htrailer).exists_ok (by decide)
  exact ⟨tally_injective, hwellFormed, hnames, htrailer, a, hread,
    hsketch.trans (by decide +kernel)⟩

end ClassAtlas.Code
