import ClassAtlas.Proofs.Assembly.Growth
import Mathlib.Logic.Function.Iterate

/-!
# What the steps tell of an assembly

A diagram is put together in steps, in any order and with any names: a name is declared, two names
are related, or a name is given members. The assembly keeps elements, files the places of boxes
under names, and keeps a place for the next box. All that it holds, and all that its steps give, is
told by the steps that were taken.

There is one box for each name that was declared, in the order of the first declarations. It is of
the kind that its first declaration says, it stands as many times one step below the first box as
there are boxes before it, and it has collected what its name was given since. What has been filed
stays filed, so every declaration of a name gives the place of this box. Every arrow joins two boxes
that were there before it.
-/

namespace ClassAtlas

/-- The box that an element is, of whatever kind. -/
def Element.box? : Element Float → Option (Node Float)
  | .node n => some n
  | _ => none

/-- A box after members have been given to a name. -/
def Node.gain (name : String) (members : Members) (n : Node Float) : Node Float :=
  if n.text = some name ∧ members ≠ {} then
    { n with members := some (n.members.getD {} ++ members) }
  else n

/-- The column for boxes of a kind. -/
def ReadSettings.columnX (settings : ReadSettings) (kind : NodeKind) : Float :=
  if kind = .interfaceBox then settings.interfaceX else settings.classX

namespace Assembly

/-! ## Steps -/

/-- A step in putting a diagram together. -/
inductive Step where
  | declare (name : String) (kind : NodeKind)
  | relate (r : Relation)
  | enrich (name : String) (members : Members)

namespace Step

/-- The name that a step declares. -/
def declares? : Step → Option String
  | .declare name _ => some name
  | _ => none

/-- The members that a step gives to a name. -/
def gives? (name : String) : Step → Option Members
  | .enrich other members => if other = name then some members else none
  | _ => none

end Step

/-- Takes a step. -/
def take (a : Assembly) : Step → Assembly
  | .declare name kind => (a.declare name kind).2
  | .relate r => (a.relate r).2
  | .enrich name members => a.enrich name members

/-- The assembly that some steps lead to. -/
def ofSteps (settings : ReadSettings) (supply : Supply) (steps : List Step) : Assembly :=
  steps.foldl take (start settings supply)

/-- The names that some steps declare, in the order of the first declarations. -/
def declared (steps : List Step) : List String := (steps.filterMap Step.declares?).eraseDups

/-- The members that some steps give to a name, in order. -/
def given (name : String) (steps : List Step) : List Members :=
  steps.filterMap (Step.gives? name)

/-- What a box has collected of the members given to its name. It has no members, not even empty
lists of them, as long as nothing was among them. -/
def collected (ms : List Members) : Option Members :=
  if ∀ m ∈ ms, m = {} then none else some (Members.join ms)

/-- The box that some steps have made behind `k` others. It belongs to the step that first declares
its name: the steps before that one give its id and its place, and those after it its members. -/
def Made (settings : ReadSettings) (supply : Supply) (steps : List Step) (k : Nat)
    (n : Node Float) : Prop :=
  ∃ before name kind after, steps = before ++ .declare name kind :: after ∧
    name ∉ declared before ∧ (declared before).length = k ∧
    n = { id := (ofSteps settings supply before).supply.nextId
          kind
          position := some ⟨settings.columnX kind, (· + settings.stepY)^[k] settings.baseY⟩
          size := some ⟨settings.nodeWidth, settings.nodeHeight⟩
          text := some name
          members := collected (given name after) }

/-- The boxes of an assembly, in order. -/
def boxes (a : Assembly) : List (Node Float) := a.diagram.elements.filterMap Element.box?

/-- Every arrow joins boxes that stand before it. -/
def Joined (es : List (Element Float)) : Prop :=
  ∀ front r back, es = front ++ .arrow r :: back →
    (∃ s, .node s ∈ front ∧ s.id = r.source) ∧ ∃ t, .node t ∈ front ∧ t.id = r.target

variable {settings : ReadSettings} {supply : Supply} {steps : List Step} {a : Assembly}

theorem declared_concat_of_none {s : Step} (h : s.declares? = none) :
    declared (steps ++ [s]) = declared steps := by
  unfold declared
  rw [List.filterMap_append, List.filterMap_cons_none h, List.filterMap_nil, List.append_nil]

theorem declared_concat_declare (steps : List Step) (name : String) (kind : NodeKind) :
    declared (steps ++ [.declare name kind]) =
      declared steps ++ if name ∈ declared steps then [] else [name] := by
  have hone : [Step.declare name kind].filterMap Step.declares? = [name] := rfl
  unfold declared
  rw [List.filterMap_append, hone, eraseDups_concat]
  simp only [List.mem_eraseDups]

theorem given_concat (name : String) (steps : List Step) (s : Step) :
    given name (steps ++ [s]) = given name steps ++ (s.gives? name).toList := by
  unfold given
  rw [List.filterMap_append]
  cases h : s.gives? name <;> simp [h]

theorem collected_concat (ms : List Members) (m : Members) :
    collected (ms ++ [m]) =
      if m = {} then collected ms else some ((collected ms).getD {} ++ m) := by
  have hjoin : Members.join (ms ++ [m]) = Members.join ms ++ m := by
    simp [Members.join, members_append]
  -- nothing collected and collected nothing amount to the same sum
  have hgetD : (collected ms).getD {} = Members.join ms := by
    unfold collected
    split
    · rename_i hempty
      have hattributes : ms.flatMap (·.attributes) = [] :=
        List.flatMap_eq_nil_iff.mpr fun m hm => by rw [hempty m hm]
      have hmethods : ms.flatMap (·.methods) = [] :=
        List.flatMap_eq_nil_iff.mpr fun m hm => by rw [hempty m hm]
      simp [Members.join, hattributes, hmethods]
    · rfl
  have hall : (∀ x ∈ ms ++ [m], x = {}) ↔ (∀ x ∈ ms, x = {}) ∧ m = {} := by
    rw [List.forall_mem_append, List.forall_mem_singleton]
  by_cases hm : m = {}
  · rw [if_pos hm]
    unfold collected
    rw [if_congr (hall.trans (and_iff_left hm)) rfl rfl, hjoin, hm, members_append_empty]
  · rw [if_neg hm, hgetD, ← hjoin]
    exact if_neg fun hempty => hm (hall.mp hempty).2

/-- A step that gives nothing to any name leaves the boxes as they are. -/
theorem Made.concat {k : Nat} {n : Node Float} (h : Made settings supply steps k n) {s : Step}
    (hs : ∀ name, s.gives? name = none) : Made settings supply (steps ++ [s]) k n := by
  obtain ⟨before, name, kind, after, rfl, hnew, hk, rfl⟩ := h
  refine ⟨before, name, kind, after ++ [s], by simp, hnew, hk, ?_⟩
  rw [given_concat, hs, Option.toList_none, List.append_nil]

/-- A step that gives members to a name gives them to its box. -/
theorem Made.gain {k : Nat} {n : Node Float} (h : Made settings supply steps k n) (name : String)
    (members : Members) :
    Made settings supply (steps ++ [.enrich name members]) k (n.gain name members) := by
  -- the box was made where its name was declared, and `given` grows by what this step gives
  obtain ⟨before, other, kind, after, rfl, hnew, hk, rfl⟩ := h
  refine ⟨before, other, kind, after ++ [.enrich name members], by simp, hnew, hk, ?_⟩
  unfold Node.gain
  rw [given_concat]
  by_cases hname : name = other
  · subst hname
    rw [Step.gives?, if_pos rfl, Option.toList_some, collected_concat]
    by_cases hm : members = {}
    · rw [if_pos hm, if_neg (fun hcond => hcond.2 hm)]
    · rw [if_neg hm, if_pos ⟨rfl, hm⟩]
  · rw [Step.gives?, if_neg hname, Option.toList_none, List.append_nil,
      if_neg fun hcond => hname (Option.some.inj hcond.1).symm]

/-! ## Boxes -/

theorem mem_boxes {n : Node Float} : n ∈ a.boxes ↔ .node n ∈ a.diagram.elements := by
  unfold boxes
  rw [List.mem_filterMap]
  constructor
  · rintro ⟨e, he, heq⟩
    cases e with
    | node m => exact Option.some.inj heq ▸ he
    | arrow r => cases heq
    | note t => cases heq
  · intro hn
    exact ⟨_, hn, rfl⟩

theorem boxes_add (a : Assembly) (f : String → Element Float) :
    (a.add f).boxes = a.boxes ++ (f a.supply.nextId).box?.toList := by
  show (a.diagram.elements ++ [f a.supply.nextId]).filterMap Element.box? = _
  rw [List.filterMap_append]
  cases h : (f a.supply.nextId).box? <;> simp [boxes, h]

theorem boxes_declare {name : String} (h : name ∉ a.names) (kind : NodeKind) :
    (a.declare name kind).2.boxes = a.boxes ++ [a.newNode name kind a.supply.nextId] := by
  rw [declare_of_not_mem h]
  exact boxes_add a (.node <| a.newNode name kind ·)

theorem boxes_enrich (h : a.Filed) (name : String) (members : Members) :
    (a.enrich name members).boxes = a.boxes.map (Node.gain name members) := by
  unfold boxes
  rw [h.elements_enrich, List.filterMap_map, List.map_filterMap]
  refine List.filterMap_congr fun e _ => ?_
  rw [Function.comp_apply]
  cases e with
  | arrow r => rw [if_neg (by simp [Element.text?])]; rfl
  | note t => rw [if_neg (by simp [Element.text?])]; rfl
  | node n =>
    show Element.box? (if n.text = some name ∧ members ≠ {} then _ else _) =
      some (Node.gain name members n)
    unfold Node.gain
    split <;> rfl

/-! ## Places that stay -/

theorem joined_concat {es : List (Element Float)} {e : Element Float} (h : Joined es)
    (he : ∀ r, e = .arrow r →
      (∃ s, .node s ∈ es ∧ s.id = r.source) ∧ ∃ t, .node t ∈ es ∧ t.id = r.target) :
    Joined (es ++ [e]) := by
  intro front r back heq
  rcases List.eq_nil_or_concat back with rfl | ⟨back, x, rfl⟩
  · obtain ⟨rfl, hlast⟩ := List.append_inj' heq rfl
    exact he r (List.cons.inj hlast).1
  · have hsplit : es ++ [e] = (front ++ .arrow r :: back) ++ [x] := by simpa using heq
    exact h front r back (List.append_inj' hsplit rfl).1

/-- Arrows join what they did if boxes stay boxes under their ids. -/
theorem joined_map {es : List (Element Float)} (h : Joined es) {f : Element Float → Element Float}
    (harrow : ∀ e r, f e = .arrow r → e = .arrow r)
    (hnode : ∀ n, ∃ m : Node Float, f (.node n) = .node m ∧ m.id = n.id) : Joined (es.map f) := by
  intro front r back heq
  obtain ⟨front', rest, rfl, rfl, hrest⟩ := List.map_eq_append_iff.mp heq
  obtain ⟨e, back', rfl, he, rfl⟩ := List.map_eq_cons_iff.mp hrest
  obtain rfl := harrow e r he
  -- a box stays a box of its id, and it stays in front
  have keep {id : String} (hbox : ∃ n, .node n ∈ front' ∧ n.id = id) :
      ∃ n, .node n ∈ front'.map f ∧ n.id = id := by
    obtain ⟨n, hn, rfl⟩ := hbox
    obtain ⟨m, hm, hid⟩ := hnode n
    exact ⟨m, hm ▸ List.mem_map_of_mem hn, hid⟩
  obtain ⟨hsource, htarget⟩ := h front' r back' rfl
  exact ⟨keep hsource, keep htarget⟩

theorem joined_enrich (h : a.Filed) (hjoined : Joined a.diagram.elements) (name : String)
    (members : Members) : Joined (a.enrich name members).diagram.elements := by
  rw [h.elements_enrich]
  refine joined_map hjoined ?_ ?_
  · -- members make no arrow
    intro e r heq
    cases e with
    | node n => split at heq <;> cases heq
    | arrow q => split at heq <;> exact heq
    | note t => split at heq <;> cases heq
  · intro n
    split
    · exact ⟨_, rfl, rfl⟩
    · exact ⟨n, rfl, rfl⟩

/-! ## Following the steps -/

/-- What holds of an assembly after each step. -/
structure Follows (settings : ReadSettings) (supply : Supply) (steps : List Step)
    (a : Assembly) : Prop where
  grows : (start settings supply).Grows a
  filed : a.Filed
  /-- Boxes are filed under the names that were declared. -/
  names_eq : a.names = declared steps
  /-- There is one box for each name. -/
  texts : a.boxes.map Node.text = (declared steps).map some
  /-- The next box goes below all others. -/
  nextY : a.nextY = (· + settings.stepY)^[(declared steps).length] settings.baseY
  made : ∀ k n, a.boxes[k]? = some n → Made settings supply steps k n
  joined : Joined a.diagram.elements

theorem Follows.nodup_ids (h : Follows settings supply steps a)
    (hid : Function.Injective supply.idAt) : (a.diagram.elements.map Element.id).Nodup := by
  obtain ⟨n, _, hids⟩ := h.grows.added
  show a.diagram.ids.Nodup
  rw [hids]
  exact Supply.nodup_nextIds (s := (start settings supply).supply) hid n

theorem Follows.length_boxes (h : Follows settings supply steps a) :
    a.boxes.length = (declared steps).length := by
  simpa using congrArg List.length h.texts

/-- A step that is ignored declares nothing new and gives nothing. -/
theorem Follows.ignore (h : Follows settings supply steps a) {s : Step}
    (hdeclared : declared (steps ++ [s]) = declared steps) (hs : ∀ name, s.gives? name = none) :
    Follows settings supply (steps ++ [s]) a where
  grows := h.grows
  filed := h.filed
  names_eq := hdeclared ▸ h.names_eq
  texts := hdeclared ▸ h.texts
  nextY := hdeclared ▸ h.nextY
  made := fun k n hn => (h.made k n hn).concat hs
  joined := h.joined

/-- A new box stands as far down as names were declared before it. -/
theorem Follows.made_newNode (h : Follows settings supply steps a)
    (ha : a = ofSteps settings supply steps) {name : String} (hnew : name ∉ declared steps)
    (kind : NodeKind) :
    Made settings supply (steps ++ [.declare name kind]) a.boxes.length
      (a.newNode name kind a.supply.nextId) := by
  refine ⟨steps, name, kind, [], rfl, hnew, h.length_boxes.symm, ?_⟩
  have hplace : a.nextY = (· + settings.stepY)^[a.boxes.length] settings.baseY := by
    rw [h.length_boxes]
    exact h.nextY
  unfold newNode
  rw [h.grows.settings_eq, hplace, ha]
  rfl

theorem Follows.declare (h : Follows settings supply steps a)
    (ha : a = ofSteps settings supply steps) (name : String) (kind : NodeKind) :
    Follows settings supply (steps ++ [.declare name kind]) (a.declare name kind).2 := by
  have hdeclared := declared_concat_declare steps name kind
  by_cases hmem : name ∈ declared steps
  · rw [if_pos hmem, List.append_nil] at hdeclared
    rw [declare_of_mem (h.names_eq ▸ hmem)]
    exact h.ignore hdeclared fun _ => rfl
  · have hnew : name ∉ a.names := h.names_eq ▸ hmem
    have hboxes := boxes_declare hnew kind
    rw [if_neg hmem] at hdeclared
    refine ⟨h.grows.trans (grows_declare a name kind), h.filed.declare name kind, ?_, ?_, ?_, ?_,
      ?_⟩
    · rw [names_declare, if_neg hnew, h.names_eq, hdeclared]
    · rw [hboxes, hdeclared, List.map_append, List.map_append, h.texts]
      rfl
    · rw [declare_of_not_mem hnew, hdeclared, List.length_append, List.length_singleton,
        Function.iterate_succ_apply', ← h.nextY]
      exact congrArg (a.nextY + ReadSettings.stepY ·) h.grows.settings_eq
    · intro k n hn
      rw [hboxes, List.getElem?_append] at hn
      split at hn
      · exact (h.made k n hn).concat fun _ => rfl
      · -- behind all old boxes there is only the new one
        rw [List.getElem?_singleton, Option.ite_none_right_eq_some] at hn
        obtain ⟨hk, hnode⟩ := hn
        obtain rfl := Option.some.inj hnode
        obtain rfl : k = a.boxes.length := by omega
        exact h.made_newNode ha hmem kind
    · rw [declare_of_not_mem hnew]
      exact joined_concat h.joined fun r hr => by cases hr

theorem Follows.relate (h : Follows settings supply steps a) (r : Relation) :
    Follows settings supply (steps ++ [.relate r]) (a.relate r).2 := by
  -- a relation declares no name, so a refused one leaves all that is followed
  have hignored := h.ignore (s := .relate r) (declared_concat_of_none rfl) fun _ => rfl
  by_cases hr : a.Knows r
  · have hgrows := h.grows.trans (grows_relate a r)
    have hfiled := h.filed.relate r
    obtain ⟨s, t, hs, ht, heq⟩ := h.filed.relate_of_knows hr
    rw [heq] at hgrows hfiled ⊢
    have hboxes : Assembly.boxes (a.add (.arrow <| newArrow s t r.kind ·)) = a.boxes :=
      (boxes_add a _).trans (List.append_nil _)
    refine ⟨hgrows, hfiled, hignored.names_eq, hboxes ▸ hignored.texts, hignored.nextY,
      hboxes ▸ hignored.made, ?_⟩
    -- the arrow that was added runs between the two boxes found under the names
    refine joined_concat h.joined fun q hq => ?_
    obtain rfl := Element.arrow.inj hq
    exact ⟨⟨s, hs.1, rfl⟩, t, ht.1, rfl⟩
  · rw [relate_of_not_knows hr]
    exact hignored

theorem Follows.enrich (h : Follows settings supply steps a) (name : String) (members : Members) :
    Follows settings supply (steps ++ [.enrich name members]) (a.enrich name members) := by
  obtain ⟨-, -, -, hnextY⟩ := enrich_rest a name members
  have hdeclared : declared (steps ++ [.enrich name members]) = declared steps :=
    declared_concat_of_none rfl
  have hboxes := boxes_enrich h.filed name members
  refine ⟨h.grows.trans (grows_enrich a name members), h.filed.enrich name members, ?_, ?_,
    hnextY.trans (hdeclared ▸ h.nextY), ?_, joined_enrich h.filed h.joined name members⟩
  · rw [names_enrich, h.names_eq, hdeclared]
  · -- members leave the text of every box
    rw [hboxes, hdeclared, ← h.texts, List.map_map]
    refine List.map_congr_left fun n _ => ?_
    rw [Function.comp_apply, Node.gain]
    split <;> rfl
  · -- each box keeps what it had, and the one of the name gains the new members
    intro k n hn
    rw [hboxes, List.getElem?_map, Option.map_eq_some_iff] at hn
    obtain ⟨old, hold, rfl⟩ := hn
    exact (h.made k old hold).gain name members

end Assembly

end ClassAtlas
