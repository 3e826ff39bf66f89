import ClassAtlas.Diagram.Member
import ClassAtlas.Proofs.Markup.Writing

/-!
# The markup round trip

Reading what was written from a diagram gives a class for every label and an arrow for every arrow
between labels. A diagram that was read from a text has nothing more than that, so writing it and
reading it again changes nothing. This is about members that are plain; a member with the keyword of
declarations in it may bring a class of its own.
-/

namespace ClassAtlas.Markup

open Text

variable {K : Type} {d : Diagram K} {text : String}

/-- The relations of a diagram are between labels, so a reading keeps all of them. -/
theorem relationsIn_write (h : Writable d) :
    relationsIn (write d) = d.relations := by
  unfold relationsIn
  rw [relationsOf_write h, declaredNames_write h, List.filter_eq_self]
  intro r hr
  obtain ⟨_, hsource, htarget⟩ := of_mem_relations hr
  exact decide_eq_true ⟨List.mem_eraseDups.mpr hsource, List.mem_eraseDups.mpr htarget⟩

/-! ## Diagrams that say what a text says -/

theorem labels_of_sketchIn (h : d.sketch = sketchIn text) :
    d.labels = declaredNames "class" text := by
  have hlabel : ∀ name ∈ declaredNames "class" text,
      Shape.label? (.box .classBox name {}) = some name := fun name hname =>
    if_pos ⟨rfl, ne_empty_of_mem_declaredNames _ _ _ hname⟩
  have hlink : ((relationsIn text).map Relation.shape).filterMap Shape.label? = [] := by
    rw [List.filterMap_map, List.filterMap_eq_nil_iff]
    exact fun _ _ => rfl
  rw [labels_eq_sketch, h, sketchIn, List.filterMap_append, hlink, List.append_nil,
    List.filterMap_map]
  exact (List.filterMap_congr hlabel).trans List.filterMap_some

theorem relations_of_sketchIn (h : d.sketch = sketchIn text) : d.relations = relationsIn text := by
  refine relations_of_sketch h ?_ ?_
  · intro s hs
    obtain ⟨name, _, rfl⟩ := List.mem_map.mp hs
    rfl
  · intro r hr
    exact isKnown_of_mem_relationsOf (List.mem_filter.mp hr).1

/-- Such a diagram has words as labels, and its boxes are empty. -/
theorem writable_of_sketchIn (h : d.sketch = sketchIn text) : Writable d := by
  -- every box was declared by a word, and no members were read
  have hbox : ∀ n ∈ d.nodes, n.label ∈ declaredNames "class" text ∧ n.members.getD {} = {} := by
    intro n hn
    have hmem := box_mem_sketch hn
    rw [h, sketchIn] at hmem
    rcases List.mem_append.mp hmem with hmem | hmem
    · obtain ⟨name, hname, heq⟩ := List.mem_map.mp hmem
      obtain ⟨_, rfl, hmembers⟩ := Shape.box.inj heq
      exact ⟨hname, hmembers.symm⟩
    · obtain ⟨r, _, heq⟩ := List.mem_map.mp hmem
      exact absurd heq (by simp [Relation.shape])
  refine ⟨fun n hn _ => isWord_of_mem_declaredNames (hbox n hn).1, ?_⟩
  intro n hn _ m hm line hline
  have hempty := (hbox n hn).2
  rw [hm, Option.getD_some] at hempty
  rw [hempty] at hline
  exact absurd hline (by simp)

/-- Reading what was written from such a diagram is reading the text. -/
theorem read_write (h : d.sketch = sketchIn text) (engine : Engine Float) (settings : ReadSettings)
    (supply : Supply) :
    read engine settings supply (write d) = read engine settings supply text := by
  have hwritable := writable_of_sketchIn h
  have hnames : declaredNames "class" (write d) = declaredNames "class" text := by
    rw [declaredNames_write hwritable, labels_of_sketchIn h,
      eraseDups_of_nodup (nodup_declaredNames _ _)]
  unfold read
  rw [assemble_eq, hnames, relationsIn_write hwritable, relations_of_sketchIn h, ← assemble_eq]

/-- **The round trip.** What is read from a written diagram has one class for every distinct label,
in the order in which the labels stand first, and one arrow for every arrow of the diagram whose two
ends have labels, in order. Whatever has no label, notes and members included, is gone. On diagrams
that come from a text the round trip is the identity, places and lines included. -/
theorem markup_round_trip (engine : Engine Float) (settings : ReadSettings) (supply : Supply)
    (hid : Function.Injective supply.idAt) :
    (∀ d : Diagram K, Writable d →
      engine.Gives settings (fun a => a.diagram.sketch =
          (d.labels.eraseDups.map fun label => .box .classBox label {}) ++
            d.relations.map Relation.shape)
        (read engine settings supply (write d))) ∧
    ∀ text, engine.Gives settings (fun a => read engine settings supply (write a.diagram) = .ok a)
      (read engine settings supply text) := by
  refine ⟨fun d hd => ?_, fun text => ?_⟩
  · refine (gives_sketch engine settings hid (write d)).imp fun a _ ha => ?_
    rw [ha, sketchIn, declaredNames_write hd, relationsIn_write hd]
  · exact (gives_sketch engine settings hid text).imp fun a hread ha =>
      (read_write ha engine settings supply).trans hread

/-- A class and an interface with a keyword for a name, a note, an arrow between the two boxes and
one that has lost its target. -/
def pets : Diagram Nat :=
  { id := "d"
    name := "Pets"
    created := 0
    updated := 0
    elements :=
      [.node { id := "1", kind := .classBox, position := none, text := some "Dog",
               members := some { attributes := ["- age: int"], methods := ["+ bark: void"] } },
       .node { id := "2", kind := .interfaceBox, position := none, text := some "class" },
       .note { id := "3", text := some "class Cat", position := none },
       .arrow { id := "4", kind := .implementation, source := "1", target := "2" },
       .arrow { id := "5", kind := .dependency, source := "1", target := "9" }] }

theorem writable_pets : Writable pets := by decide +kernel

theorem markup_round_trip_pets :
    Function.Injective Supply.tally.idAt ∧ Writable pets ∧
      ∃ a, read layeredEngine {} .tally (write pets) = .ok a ∧ a.diagram.sketch =
        [.box .classBox "Dog" {}, .box .classBox "class" {},
          .link .implementation (some ("Dog", "class"))] := by
  obtain ⟨a, hread, hsketch⟩ := ((markup_round_trip layeredEngine {} .tally tally_injective).1 pets
    writable_pets).exists_ok (by decide)
  exact ⟨tally_injective, writable_pets, a, hread, hsketch.trans (by decide)⟩

/-! ## Members that declare -/

/-- **What comes back of the labels.** Members are written as they stand and the reader does not
know a block from the text around it, so a member may declare a box of its own. What is read from a
written diagram has the labels of the diagram and the names that stand in its blocks as declared,
and the labels come back alone exactly when all these names are labels. This is so where the keyword
stands in no member. -/
theorem labels_come_back (engine : Engine Float) (settings : ReadSettings) (supply : Supply)
    (hid : Function.Injective supply.idAt) (d : Diagram K)
    (h : ∀ n ∈ d.labelledNodes, IsWord n.label.toList) :
    engine.Gives settings (fun a =>
      a.diagram.labels = (d.labelledNodes.flatMap fun n => n.label :: strayNames n).eraseDups ∧
      ((∀ name, name ∈ a.diagram.labels ↔ name ∈ d.labels) ↔
        ∀ n ∈ d.labelledNodes, ∀ name ∈ strayNames n, name ∈ d.labels) ∧
      ((∀ n ∈ d.labelledNodes, KeywordFree n) →
        ∀ name, name ∈ a.diagram.labels ↔ name ∈ d.labels))
      (read engine settings supply (write d)) := by
  refine (gives_sketch engine settings hid (write d)).imp fun a _ ha => ?_
  have hlabels : a.diagram.labels =
      (d.labelledNodes.flatMap fun n => n.label :: strayNames n).eraseDups := by
    rw [labels_of_sketchIn ha, declaredNames_write_eq h]
  have hmem : ∀ name, name ∈ a.diagram.labels ↔
      name ∈ d.labels ∨ ∃ n ∈ d.labelledNodes, name ∈ strayNames n := by
    intro name
    rw [hlabels, List.mem_eraseDups, List.mem_flatMap, ← map_label_labelledNodes, List.mem_map]
    constructor
    · rintro ⟨n, hn, hname⟩
      rcases List.mem_cons.mp hname with rfl | hstray
      · exact .inl ⟨n, hn, rfl⟩
      · exact .inr ⟨n, hn, hstray⟩
    · rintro (⟨n, hn, rfl⟩ | ⟨n, hn, hstray⟩)
      · exact ⟨n, hn, List.mem_cons_self ..⟩
      · exact ⟨n, hn, List.mem_cons_of_mem _ hstray⟩
  have hexact : (∀ name, name ∈ a.diagram.labels ↔ name ∈ d.labels) ↔
      ∀ n ∈ d.labelledNodes, ∀ name ∈ strayNames n, name ∈ d.labels := by
    constructor
    · intro hback n hn name hname
      exact (hback name).mp ((hmem name).mpr (.inr ⟨n, hn, hname⟩))
    · intro hstray name
      rw [hmem]
      exact or_iff_left_of_imp fun ⟨n, hn, hname⟩ => hstray n hn name hname
  refine ⟨hlabels, hexact, fun hfree => hexact.mpr ?_⟩
  -- blocks without the keyword have no stray names
  intro n hn name hname
  rw [strayNames_eq_nil (hfree n hn)] at hname
  exact absurd hname (by simp)

/-- A kennel with a single box, one of whose members has a type of two words. -/
def guarded : Diagram Nat :=
  { id := "d"
    name := "Guarded"
    created := 0
    updated := 0
    elements :=
      [.node { id := "1", kind := .classBox, position := none, text := some "Kennel",
               members := some { attributes := ["+ guard: class Dog"], methods := ["open"] } }] }

theorem labels_come_back_guarded :
    Function.Injective Supply.tally.idAt ∧
      (∀ n ∈ guarded.labelledNodes, IsWord n.label.toList) ∧
      ∃ a, read layeredEngine {} .tally (write guarded) = .ok a ∧
        a.diagram.labels = ["Kennel", "Dog"] := by
  have hword : ∀ n ∈ guarded.labelledNodes, IsWord n.label.toList := by decide +kernel
  obtain ⟨a, hread, hlabels, -⟩ :=
    (labels_come_back layeredEngine {} .tally tally_injective guarded hword).exists_ok (by decide)
  exact ⟨tally_injective, hword, a, hread, hlabels.trans (by decide +kernel)⟩

/-- Labels that are words and members that are read as member lines are not enough for the labels to
come back alone. -/
theorem not_labels_come_back_alone :
    ¬ ∀ d : Diagram Nat,
      (∀ n ∈ d.labelledNodes, IsWord n.label.toList) →
      (∀ n ∈ d.nodes, ∀ m ∈ n.members, ∀ line ∈ m.attributes ++ m.methods,
        '\n' ∉ line.toList ∧ (MemberLine.parse? line).isSome) →
      layeredEngine.Gives {} (fun a => ∀ name, name ∈ a.diagram.labels ↔ name ∈ d.labels)
        (read layeredEngine {} .tally (write d)) := by
  intro h
  have hback := h guarded (by decide +kernel) (by decide +kernel)
  obtain ⟨a, hread, hlabels⟩ := hback.exists_ok (by decide)
  have hsketch := (gives_sketch layeredEngine {} tally_injective (write guarded)).of_eq_ok hread
  have hdog := hlabels "Dog"
  rw [labels_of_sketchIn hsketch] at hdog
  exact absurd (hdog.mp (by decide +kernel)) (by decide +kernel)

end ClassAtlas.Markup
