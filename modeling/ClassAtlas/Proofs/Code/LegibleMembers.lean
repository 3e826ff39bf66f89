import ClassAtlas.Proofs.Code.NormalForm

/-!
# Members that outlast writing

Two grammars meet in a member line. The reader of declarations takes any word for the name of a
member, and its type may have arguments on several lines. The writer finds the name again only if
it is an identifier and the type stands on one line. So of the members that are read from a text
the *legible* ones are written, and the others are lost without a trace.
-/

namespace ClassAtlas.Code

open Text

variable {text name : String}
  {tail : List Char → Option (List Char)}

/-! ## What is scanned -/

/-- The members of one form that a text declares for a name, in all blocks of the name. -/
def declarationsIn (tail : List Char → Option (List Char)) (text name : String) :
    List MemberDeclaration :=
  (bodies name text.toList).flatMap fun body => occurrences (member tail) (withoutNested body)

theorem membersIn_eq (text name : String) :
    membersIn text name =
      { attributes := (declarationsIn accessors text name).map (·.line)
        methods := (declarationsIn parameters text name).map (·.line) } := by
  unfold membersIn Members.join declarationsIn declaredMembers
  simp only [List.flatMap_map, List.map_flatMap]

/-! ## Types begin and end with no blank -/

/-- The text ends with a character that is no blank. -/
def EndsSolid (s : List Char) : Prop := ∃ u c, s = u ++ [c] ∧ isBlank c = false

theorem EndsSolid.trimEnd {s : List Char} (h : EndsSolid s) : trimEnd s = s := by
  obtain ⟨u, c, rfl, hc⟩ := h
  exact trimEnd_append_mark u hc

theorem EndsSolid.append {u v : List Char} (hu : EndsSolid u) (hv : v = [] ∨ EndsSolid v) :
    EndsSolid (u ++ v) := by
  rcases hv with rfl | ⟨w, c, rfl, hc⟩
  · rwa [List.append_nil]
  · exact ⟨u ++ w, c, by rw [List.append_assoc], hc⟩

theorem endsSolid_typeArguments {inner : Bool} {s args r : List Char}
    (h : typeArguments inner s = some (args, r)) : EndsSolid args := by
  induction s generalizing inner args r with
  | nil => exact absurd h (by simp [typeArguments])
  | cons c s ih =>
    rw [typeArguments] at h
    split at h
    · rename_i hclose
      obtain ⟨rfl, _⟩ := Prod.mk.inj (Option.some.inj h)
      -- the closing angle bracket is the last character
      exact ⟨[], c, rfl, by rw [hclose.1]; decide⟩
    · split at h
      · exact absurd h (by simp)
      · obtain ⟨⟨args', r'⟩, hargs, heq⟩ := Option.map_eq_some_iff.mp h
        obtain ⟨rfl, _⟩ := Prod.mk.inj heq
        obtain ⟨u, d, rfl, hd⟩ := ih hargs
        exact ⟨c :: u, d, rfl, hd⟩

theorem endsSolid_optionalArguments (s : List Char) :
    (optionalArguments s).1 = [] ∨ EndsSolid (optionalArguments s).1 := by
  unfold optionalArguments
  split
  · rename_i r
    cases hargs : typeArguments false r with
    | none => exact Or.inl rfl
    | some pair =>
      obtain ⟨u, d, heq, hd⟩ := endsSolid_typeArguments hargs
      exact Or.inr ⟨'<' :: u, d, congrArg ('<' :: ·) heq, hd⟩
  · exact Or.inl rfl

theorem endsSolid_arrayMarks (s : List Char) :
    (arrayMarks s).1 = [] ∨ EndsSolid (arrayMarks s).1 := by
  induction s using arrayMarks.induct with
  | case1 s marks rest heq ih =>
    rw [arrayMarks]
    rw [heq] at ih ⊢
    -- the last bracket closes, whether or not there are more behind this pair
    rcases ih with hnil | ⟨u, c, hu, hc⟩
    · exact Or.inr ⟨['['], ']', congrArg (['[', ']'] ++ ·) hnil, by decide⟩
    · exact Or.inr ⟨'[' :: ']' :: u, c, congrArg (['[', ']'] ++ ·) hu, hc⟩
  | case2 s hnot =>
    rw [arrayMarks]
    · exact Or.inl rfl
    · exact hnot

theorem endsSolid_optionalMark (s : List Char) :
    (optionalMark s).1 = [] ∨ EndsSolid (optionalMark s).1 := by
  unfold optionalMark
  split
  · exact Or.inr ⟨[], '?', rfl, by decide⟩
  · exact Or.inl rfl

/-- A type that was scanned begins and ends with no blank. -/
theorem of_typeName {s type r : List Char} (h : typeName s = some (type, r)) :
    type ≠ [] ∧ BlanksEnd type ∧ EndsSolid type := by
  unfold typeName at h
  obtain ⟨⟨path, s'⟩, hpath, heq⟩ := Option.bind_eq_some_iff.mp h
  obtain ⟨_, hne, hall, _⟩ := run_eq_some hpath
  obtain ⟨rfl, _⟩ := Prod.mk.inj (Option.some.inj heq)
  -- a path is of word characters and dots
  have hsolid : ∀ c ∈ path, isBlank c = false := by
    intro c hc
    rcases Bool.or_eq_true_iff.mp (hall c hc) with hword | hdot
    · exact isBlank_of_isWord hword
    · obtain rfl := beq_iff_eq.mp hdot
      decide
  have hend : EndsSolid path := by
    obtain ⟨u, c, rfl⟩ := (List.eq_nil_or_concat path).resolve_left hne
    exact ⟨u, c, by simp, hsolid c (by simp)⟩
  -- what may follow a path, arguments and marks, ends in no blank either
  refine ⟨by simp [hne], ?_, ((hend.append (endsSolid_optionalArguments _)).append
    (endsSolid_arrayMarks _)).append (endsSolid_optionalMark _)⟩
  obtain ⟨c, path, rfl⟩ := List.exists_cons_of_ne_nil hne
  exact hsolid c (by simp)

/-! ## Legible members -/

/-- The line of a member can be read again: its name is an identifier, and its type stands on one
line. -/
def MemberDeclaration.Legible (m : MemberDeclaration) : Prop :=
  isIdentifier m.name.toList = true ∧ '\n' ∉ m.type.toList

instance (m : MemberDeclaration) : Decidable m.Legible := inferInstanceAs (Decidable (_ ∧ _))

theorem visibilityMark_mem (keyword : String) :
    visibilityMark keyword ∈ ["+", "-", "#", "~"] := by
  unfold visibilityMark
  split
  · simp
  · split <;> simp

/-- A type that was scanned is read again if it stands on one line. -/
theorem typeText_scanned {type : List Char}
    (h : type ≠ [] ∧ BlanksEnd type ∧ EndsSolid type) :
    MemberLine.typeText (' ' :: type) = if '\n' ∈ type then none else some type := by
  obtain ⟨hne, hstart, hend⟩ := h
  obtain ⟨c, r, rfl⟩ := List.exists_cons_of_ne_nil hne
  unfold MemberLine.typeText
  rw [trimStart_cons (by decide), trimStart_of_ends hstart]
  dsimp only
  rw [hend.trimEnd]

/-- The name of a member that was scanned is a word, and its type begins and ends with no blank. -/
theorem of_mem_declarationsIn {m : MemberDeclaration} (h : m ∈ declarationsIn tail text name) :
    IsWord m.name.toList ∧
      m.type.toList ≠ [] ∧ BlanksEnd m.type.toList ∧ EndsSolid m.type.toList := by
  obtain ⟨body, _, hm⟩ := List.mem_flatMap.mp h
  obtain ⟨_, s, _, _, hfound⟩ := mem_occurrencesFrom hm
  -- a member is read in steps: they are undone one by one, down to the type and the name
  unfold member at hfound
  simp only [Option.bind_eq_bind, Option.bind_eq_some_iff] at hfound
  obtain ⟨_, _, ⟨⟨type, name⟩, s'⟩, hplaces, heq⟩ := hfound
  obtain ⟨rfl, _⟩ := Prod.mk.inj (Option.some.inj heq)
  obtain ⟨place, _, hplace⟩ := List.exists_of_findSome?_eq_some hplaces
  unfold typeAndName at hplace
  simp only [Option.bind_eq_bind, Option.bind_eq_some_iff] at hplace
  obtain ⟨⟨type', _⟩, htype, _, _, ⟨name', _⟩, hname, _, _, heq⟩ := hplace
  simp only [Option.some.injEq, Prod.mk.injEq] at heq
  obtain ⟨⟨rfl, rfl⟩, _⟩ := heq
  rw [String.toList_ofList, String.toList_ofList]
  exact ⟨(word_eq_some_iff.mp hname).2.1, of_typeName htype⟩

/-- Of the lines of the members that are read, those of the legible members have a name. -/
theorem memberName?_line {m : MemberDeclaration} (h : m ∈ declarationsIn tail text name) :
    memberName? m.line = if m.Legible then some m.name else none := by
  obtain ⟨hname, htype⟩ := of_mem_declarationsIn h
  unfold MemberDeclaration.line
  rw [memberName?_memberLine (visibilityMark_mem _) hname, typeText_scanned htype]
  unfold MemberDeclaration.Legible
  by_cases hid : isIdentifier m.name.toList = true
  · by_cases hbreak : '\n' ∈ m.type.toList <;> simp [hid, hbreak]
  · simp [hid]

/-- The names of the members of one form that a text declares for a name. -/
def memberNames (tail : List Char → Option (List Char)) (text name : String) : List String :=
  (declarationsIn tail text name).map (·.name)

/-- The names of those among them that are legible. -/
def legibleNames (tail : List Char → Option (List Char)) (text name : String) : List String :=
  ((declarationsIn tail text name).filter fun m => m.Legible).map (·.name)

theorem filterMap_lines (tail : List Char → Option (List Char)) (text name : String) :
    ((declarationsIn tail text name).map (·.line)).filterMap memberName? =
      legibleNames tail text name := by
  unfold legibleNames
  rw [List.filterMap_map, ← List.filterMap_eq_map', List.filterMap_filter]
  refine List.filterMap_congr ?_
  intro m hm
  rw [Function.comp_apply, memberName?_line hm]
  by_cases hlegible : m.Legible <;> simp [hlegible]

/-- No name is lost exactly if all members are legible. -/
theorem legibleNames_eq_iff (tail : List Char → Option (List Char)) (text name : String) :
    legibleNames tail text name = memberNames tail text name ↔
      ∀ m ∈ declarationsIn tail text name, m.Legible := by
  unfold legibleNames memberNames
  constructor
  · intro h m hm
    have hlength := congrArg List.length h
    rw [List.length_map, List.length_map, List.length_filter_eq_length_iff] at hlength
    exact of_decide_eq_true (hlength m hm)
  · intro h
    rw [List.filter_eq_self.mpr fun m hm => decide_eq_true (h m hm)]

/-! ## Classes -/

/-- The classes of a diagram with their members, in order. -/
def classes {K : Type} (d : Diagram K) : List (String × Members) :=
  (d.nodes.filter fun n => n.kind = .classBox).map fun n => (n.label, n.members.getD {})

/-- The label and the members of a shape that is a class. -/
def class? : Shape → Option (String × Members)
  | .box kind label members => if kind = .classBox then some (label, members) else none
  | _ => none

theorem classes_eq_sketch {K : Type} (d : Diagram K) : classes d = d.sketch.filterMap class? := by
  unfold classes Diagram.nodes Diagram.sketch
  rw [List.filter_filterMap, List.map_filterMap, List.filterMap_map]
  refine congrArg (List.filterMap · d.elements) (funext ?_)
  intro e
  cases e with
  | arrow a => rfl
  | note t => rfl
  | node n =>
    -- both leave out a node of another kind, one of them by way of the known kinds
    show ((Element.node? (.node n)).filter _).map _ =
      if n.kind = .classBox then some (n.label, n.members.getD {}) else none
    by_cases hk : n.kind = .classBox
    · simp [Element.node?, hk, NodeKind.isKnown, Option.filter]
    · cases hknown : n.kind.isKnown <;> simp [Element.node?, hk, hknown, Option.filter]

/-- Where boxes of a class stand before those of an interface and the arrows, they are the
classes. -/
theorem classes_of_sketch {K : Type} {d : Diagram K} {names interfaces : List String}
    {members members' : String → Members} {rs : List Relation}
    (h : d.sketch = (names.map fun name => Shape.box .classBox name (members name)) ++
      (interfaces.map fun name => Shape.box .interfaceBox name (members' name)) ++
      rs.map Relation.shape) :
    classes d = names.map fun name => (name, members name) := by
  have hinterfaces : (interfaces.map fun name =>
      Shape.box .interfaceBox name (members' name)).filterMap class? = [] := by
    rw [List.filterMap_map]
    exact List.filterMap_eq_nil_iff.mpr fun _ _ => rfl
  have hlinks : (rs.map Relation.shape).filterMap class? = [] := by
    rw [List.filterMap_map]
    exact List.filterMap_eq_nil_iff.mpr fun _ _ => rfl
  rw [classes_eq_sketch, h, List.filterMap_append, List.filterMap_append, hinterfaces, hlinks,
    List.append_nil, List.append_nil, List.filterMap_map, ← List.filterMap_eq_map']
  exact List.filterMap_congr fun _ _ => rfl

section

variable {K K' : Type} {d : Diagram K} {d' : Diagram K'}

/-- The classes of a text have the members that are declared for them. -/
theorem classes_of_sketchIn (h : d.sketch = sketchIn text) :
    classes d = (declaredNames "class" text).map fun name =>
      (name, { attributes := (declarationsIn accessors text name).map (·.line)
               methods := (declarationsIn parameters text name).map (·.line) }) := by
  rw [classes_of_sketch h]
  simp only [membersIn_eq]

/-- After writing and reading again they have the legible ones, each with the type that every
property or stub has. -/
theorem classes_again (h : d.sketch = sketchIn text) (hd' : d'.sketch = sketchIn (write d)) :
    classes d' = (declaredNames "class" text).map fun name =>
      (name, { attributes := (legibleNames accessors text name).map (memberLine "+" · "string")
               methods :=
                (legibleNames parameters text name).map (memberLine "+" · "void") }) := by
  obtain ⟨hclasses, hinterfaces⟩ := filter_boxes_of_sketchIn h
  -- what the written text is read as: the classes, the interfaces, then the relations
  have hsketch : d'.sketch =
      ((declaredNames "class" text).map fun name =>
        .box .classBox name (Box.of .classBox name (membersIn text name)).members) ++
      ((interfacesIn text).map fun name =>
        .box .interfaceBox name (Box.of .interfaceBox name (membersIn text name)).members) ++
      ((labelsIn d .classType).flatMap (linksIn d.relations)).map Relation.shape := by
    rw [hd', sketchIn_write (declarable_of_sketchIn h), shapesIn, shapesIn, hclasses,
      hinterfaces, List.map_map, List.map_map]
    rfl
  rw [classes_of_sketch hsketch]
  refine List.map_congr_left ?_
  intro name _
  rw [membersIn_eq, ← filterMap_lines, ← filterMap_lines]
  rfl

end

/-- **Which members outlast writing.** Whatever text a diagram was read from, writing it and reading
it again keeps of every class the legible members, in order, and no others. So the names of the
members of a class are all kept exactly if all of them are legible: a name that is no identifier is
lost, and so is the name of a member whose type has a line break. -/
theorem legible_members_survive (engine : Engine Float) (settings settings' : ReadSettings)
    (supply supply' : Supply) (hid : Function.Injective supply.idAt)
    (hid' : Function.Injective supply'.idAt) (text : String) :
    engine.Gives settings (fun first =>
        (classes first.diagram = (declaredNames "class" text).map fun name =>
          (name, { attributes := (declarationsIn accessors text name).map (·.line)
                   methods := (declarationsIn parameters text name).map (·.line) })) ∧
        engine.Gives settings' (fun again =>
            classes again.diagram = (declaredNames "class" text).map fun name =>
              (name, { attributes :=
                        (legibleNames accessors text name).map (memberLine "+" · "string")
                       methods :=
                        (legibleNames parameters text name).map (memberLine "+" · "void") }))
          (read engine settings' supply' (write first.diagram)))
      (read engine settings supply text) ∧
    ∀ tail name, legibleNames tail text name = memberNames tail text name ↔
      ∀ m ∈ declarationsIn tail text name, m.Legible := by
  refine ⟨?_, fun tail name => legibleNames_eq_iff tail text name⟩
  refine (gives_sketch engine settings hid text).imp fun first _ hfirst => ?_
  -- what is written is read once more: two times the same equation of a reading
  have hagain := gives_sketch engine settings' hid' (write first.diagram)
  exact ⟨classes_of_sketchIn hfirst, hagain.imp fun _ _ hwritten => classes_again hfirst hwritten⟩

/-- A class with a type on two lines, a name that begins with an accent, and two plain members. -/
def shelfText : String :=
  "class Shelf \x7b public Map<int,\n Book> Index \x7b get; set; \x7d " ++
    "public int Étage \x7b get; \x7d public int Size \x7b get; \x7d " ++
    "public void Tidy() \x7b \x7d \x7d"

theorem scanned_shelf :
    declaredNames "class" shelfText = ["Shelf"] ∧
      declarationsIn accessors shelfText "Shelf" =
        [⟨"public", "Map<int,\n Book>", "Index"⟩, ⟨"public", "int", "Étage"⟩,
          ⟨"public", "int", "Size"⟩] ∧
      declarationsIn parameters shelfText "Shelf" = [⟨"public", "void", "Tidy"⟩] := by
  decide +kernel

theorem legibleNames_shelf : legibleNames accessors shelfText "Shelf" = ["Size"] ∧
    legibleNames parameters shelfText "Shelf" = ["Tidy"] := by
  obtain ⟨_, hproperties, hmethods⟩ := scanned_shelf
  unfold legibleNames
  rw [hproperties, hmethods]
  decide +kernel

theorem legible_members_survive_shelf :
    Function.Injective Supply.tally.idAt ∧
      (∃ first, read layeredEngine {} .tally shelfText = .ok first ∧
        ∃ again, read layeredEngine {} .tally (write first.diagram) = .ok again ∧
          classes again.diagram = (declaredNames "class" shelfText).map fun name =>
            (name, { attributes :=
                      (legibleNames accessors shelfText name).map (memberLine "+" · "string")
                     methods :=
                      (legibleNames parameters shelfText name).map (memberLine "+" · "void") })) ∧
      declaredNames "class" shelfText = ["Shelf"] ∧
      legibleNames accessors shelfText "Shelf" = ["Size"] ∧
      legibleNames parameters shelfText "Shelf" = ["Tidy"] := by
  obtain ⟨first, hfirst, -, hgives⟩ := (legible_members_survive layeredEngine {} {} .tally .tally
    tally_injective tally_injective shelfText).1.exists_ok (by decide)
  exact ⟨tally_injective, ⟨first, hfirst, hgives.exists_ok (by decide)⟩, scanned_shelf.1,
    legibleNames_shelf⟩

/-- Two of the three properties are read and not written. -/
theorem members_lost_from_shelf :
    ∃ first, read layeredEngine {} .tally shelfText = .ok first ∧
      ∃ again, read layeredEngine {} .tally (write first.diagram) = .ok again ∧
        classes first.diagram = [("Shelf",
          { attributes := ["+ Index: Map<int,\n Book>", "+ Étage: int", "+ Size: int"]
            methods := ["+ Tidy: void"] })] ∧
        classes again.diagram = [("Shelf",
          { attributes := ["+ Size: string"], methods := ["+ Tidy: void"] })] := by
  obtain ⟨hnames, hproperties, hmethods⟩ := scanned_shelf
  obtain ⟨hkept, hkept'⟩ := legibleNames_shelf
  obtain ⟨first, hfirst, hsketch⟩ :=
    (gives_sketch layeredEngine {} tally_injective shelfText).exists_ok (by decide)
  obtain ⟨again, hagain, hsketch'⟩ :=
    (gives_sketch layeredEngine {} tally_injective (write first.diagram)).exists_ok (by decide)
  refine ⟨first, hfirst, again, hagain, ?_, ?_⟩
  · rw [classes_of_sketchIn hsketch, hnames, List.map_singleton, hproperties, hmethods]
    decide +kernel
  · rw [classes_again hsketch hsketch', hnames, List.map_singleton, hkept, hkept']
    decide +kernel

end ClassAtlas.Code
