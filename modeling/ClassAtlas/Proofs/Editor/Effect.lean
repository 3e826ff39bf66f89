import ClassAtlas.Editor.Command
import ClassAtlas.Proofs.Diagram.Ends
import ClassAtlas.Proofs.Supply

/-!
# What a command does

A command that is carried out does one of three things. It only looks; or it files a new diagram
behind all others; or it revises one diagram in its place, by adding an element at the end, by
removing one, or by changing one that keeps its id and its ends. A command that is refused leaves
the archive idle.

The effects are told in terms of sound desks, on which no id is used twice and the supply has none
of the ids in use to give.
-/

namespace ClassAtlas

/-! ## Effects -/

namespace Desk

/-- What holds of a desk at any time. -/
structure Sound (desk : Desk) : Prop where
  /-- The ids of the supply differ. -/
  injective : Function.Injective desk.supply.idAt
  /-- Every id in use was handed out by the supply. -/
  taken : ∀ id ∈ desk.archive.ids, desk.supply.Taken id
  /-- Every diagram is kept under its own id. -/
  keyed : desk.archive.Keyed
  /-- No id is used twice, be it for a diagram or for an element. -/
  ids : desk.archive.ids.Nodup
  /-- Boxes, arrows and notes are of known kinds. -/
  known : ∀ d ∈ desk.archive.diagrams, ∀ e ∈ d.elements, e.isKnown = true

/-- The archive is left as it was, but ids and times may have been taken. -/
structure Idles (desk desk' : Desk) : Prop where
  archive : desk'.archive = desk.archive
  supply : ∃ ids times, desk'.supply = (desk.supply.afterIds ids).afterTimes times

/-- A new diagram is filed under its id, behind all others. It is made of the next ids and times. -/
structure Files (desk desk' : Desk) (d : Diagram Float) : Prop where
  entries : desk'.archive.entries = desk.archive.entries ++ [(d.id, d)]
  allIds : d.allIds = desk.supply.nextIds (d.elements.length + 1)
  created : d.created = desk.supply.now
  updated : d.updated = desk.supply.afterTime.afterTime.now
  closed : d.Closed
  supply : desk'.supply =
    (desk.supply.afterIds (d.elements.length + 1)).afterTime.afterTime.afterTime

/-- The diagram with an id gets new elements for its old ones and the time as its stamp. It keeps
its place, its key and all else, and the other diagrams are as they were. -/
def Revises (desk desk' : Desk) (id : String) (old new : List (Element Float)) : Prop :=
  ∃ front d back, desk.archive.entries = front ++ (id, d) :: back ∧ d.id = id ∧
    d.elements = old ∧ desk'.archive.entries =
      front ++ (id, { d with elements := new, updated := desk.supply.now }) :: back

/-- An element under the next id is added to the diagram with an id, behind all others. -/
structure Adds (desk desk' : Desk) (id : String) (old : List (Element Float)) (e : Element Float) :
    Prop where
  revises : desk.Revises desk' id old (old ++ [e])
  id_eq : e.id = desk.supply.nextId
  isKnown : e.isKnown = true
  joins : e.Joins (old.map Element.id)
  supply : desk'.supply = desk.supply.afterId.afterTime

end Desk

/-- What a command that is carried out has done to a desk, and its answer. -/
def Command.Effect (desk : Desk) (answer : Answer) (desk' : Desk) : Command → Prop
  | .create name =>
    ∃ d, answer = .diagram d ∧ desk.Files desk' d ∧ d.name = name ∧ d.elements = []
  | .readText _ _ settings =>
    ∃ d, answer = .diagram d ∧ desk.Files desk' d ∧ d.name = settings.diagramName
  | .get id => ∃ d ∈ desk.archive.diagrams, d.id = id ∧ answer = .diagram d ∧ desk' = desk
  | .writeText id name =>
    ∃ d ∈ desk.archive.diagrams, d.id = id ∧ desk' = desk ∧
      ∃ dialect, Catalogue.standard.find (some name) = .ok dialect ∧
        answer = .text (dialect.write d)
  | .addNode id kind position size text =>
    ∃ old e, answer = .element e ∧ desk.Adds desk' id old e ∧
      e = .node { id := e.id, kind := .ofWord kind, position := some position, size, text,
                  members := some {} }
  | .connect id source target kind =>
    ∃ old e, answer = .element e ∧ desk.Adds desk' id old e ∧
      e = .arrow { id := e.id, kind := .ofWord kind, source, target }
  | .annotate id position text =>
    ∃ old e, answer = .element e ∧ desk.Adds desk' id old e ∧
      e = .note { id := e.id, text := some text, position := some position }
  | .update id element values =>
    values.unknown = [] ∧ desk'.supply = desk.supply.afterTime ∧
      ∃ before old after new, old.id = element ∧ values.changes.apply old = .ok new ∧
        answer = .element new ∧ new.Replaces old ∧
        desk.Revises desk' id (before ++ old :: after) (before ++ new :: after)
  | .remove id element =>
    desk'.supply = desk.supply.afterTime ∧
      ((∃ before e after, e.id = element ∧
          desk.Revises desk' id (before ++ e :: after) (before ++ after)) ∨
        ∃ old, element ∉ old.map Element.id ∧ desk.Revises desk' id old old)

/-- The diagram that a command is to revise. -/
def Command.target? : Command → Option String
  | .addNode id .. | .connect id .. | .annotate id .. | .update id .. | .remove id _ => some id
  | .create _ | .get _ | .readText .. | .writeText .. => none

/-! ## Revisions -/

/-- What a revision means for the elements of a diagram, whatever the command. -/
structure Desk.Revision (desk : Desk) (command : Command) (desk' : Desk) (id : String)
    (old new : List (Element Float)) (n : Nat) : Prop where
  target : command.target? = some id
  revises : desk.Revises desk' id old new
  supply : desk'.supply = (desk.supply.afterIds n).afterTime
  ids : (new.map Element.id).Sublist (old.map Element.id ++ desk.supply.nextIds n)
  /-- An element stands for an old one, or it is new and joins others that are there. -/
  elements : ∀ e ∈ new, (∃ e₀ ∈ old, e.Replaces e₀) ∨
    (e.id ∈ desk.supply.nextIds n ∧ e.isKnown = true ∧ e.Joins (new.map Element.id))
  /-- Only removing loses an element. -/
  kept : ∀ x ∈ old.map Element.id, x ∈ new.map Element.id ∨ command = .remove id x

variable {desk desk' : Desk} {command : Command} {answer : Answer} {id element : String}
  {e old' : Element Float} {old before after : List (Element Float)}

theorem Desk.Idles.refl (desk : Desk) : desk.Idles desk := ⟨rfl, 0, 0, rfl⟩

theorem Desk.Files.diagrams {d : Diagram Float} (h : desk.Files desk' d) :
    desk'.archive.diagrams = desk.archive.diagrams ++ [d] := by
  unfold Archive.diagrams
  rw [h.entries, List.map_append, List.map_singleton]

/-- A revision told without the keys. -/
theorem Desk.Revises.diagrams {old new : List (Element Float)} (h : desk.Revises desk' id old new) :
    ∃ front d back, desk.archive.diagrams = front ++ d :: back ∧ d.id = id ∧ d.elements = old ∧
      desk'.archive.diagrams =
        front ++ { d with elements := new, updated := desk.supply.now } :: back := by
  obtain ⟨front, d, back, hsplit, hid, hold, hsplit'⟩ := h
  refine ⟨front.map (·.2), d, back.map (·.2), ?_, hid, hold, ?_⟩
  · unfold Archive.diagrams
    rw [hsplit, List.map_append, List.map_cons]
  · unfold Archive.diagrams
    rw [hsplit', List.map_append, List.map_cons]

theorem Desk.Adds.revision (h : desk.Adds desk' id old e) (ht : command.target? = some id) :
    desk.Revision command desk' id old (old ++ [e]) 1 where
  target := ht
  revises := h.revises
  supply := h.supply
  ids := by
    rw [List.map_append, List.map_singleton, h.id_eq, Supply.nextIds_one]
  elements := by
    intro x hx
    rcases List.mem_append.mp hx with hx | hx
    · exact .inl ⟨x, hx, .refl x⟩
    · obtain rfl := List.mem_singleton.mp hx
      refine .inr ⟨?_, h.isKnown, ?_⟩
      · rw [h.id_eq, Supply.nextIds_one]
        exact List.mem_singleton_self _
      · intro y hy
        obtain ⟨hmem, hne⟩ := h.joins y hy
        exact ⟨List.map_append ▸ List.mem_append_left _ hmem, hne⟩
  kept := by
    intro x hx
    exact .inl (List.map_append ▸ List.mem_append_left _ hx)

theorem Desk.revision_of_replaces {new : Element Float} (hreplaces : new.Replaces old')
    (hrevises : desk.Revises desk' id (before ++ old' :: after) (before ++ new :: after))
    (hsupply : desk'.supply = desk.supply.afterTime) (ht : command.target? = some id) :
    desk.Revision command desk' id (before ++ old' :: after) (before ++ new :: after) 0 := by
  -- the element that is exchanged keeps its id
  have hids : (before ++ new :: after).map Element.id =
      (before ++ old' :: after).map Element.id := by
    simp only [List.map_append, List.map_cons, hreplaces.id_eq]
  refine ⟨ht, hrevises, hsupply, ?_, ?_, ?_⟩
  · rw [hids, Supply.nextIds_zero, List.append_nil]
  · intro x hx
    rcases List.mem_append.mp hx with hx | hx
    · exact .inl ⟨x, List.mem_append_left _ hx, .refl x⟩
    · rcases List.mem_cons.mp hx with rfl | hx
      · exact .inl ⟨old', List.mem_append_right _ (List.mem_cons_self ..), hreplaces⟩
      · exact .inl ⟨x, List.mem_append_right _ (List.mem_cons_of_mem _ hx), .refl x⟩
  · intro x hx
    exact .inl (hids ▸ hx)

theorem Desk.revision_of_remove
    (hrevises : desk.Revises desk' id (before ++ e :: after) (before ++ after))
    (hsupply : desk'.supply = desk.supply.afterTime) :
    desk.Revision (.remove id e.id) desk' id (before ++ e :: after) (before ++ after) 0 := by
  have hsub : (before ++ after).Sublist (before ++ e :: after) :=
    (List.sublist_cons_self e after).append_left before
  refine ⟨rfl, hrevises, hsupply, ?_, ?_, ?_⟩
  · rw [Supply.nextIds_zero, List.append_nil]
    exact hsub.map Element.id
  · intro x hx
    exact .inl ⟨x, hsub.subset hx, .refl x⟩
  · -- the id that is lost is the one that the command names
    intro x hx
    rw [List.map_append, List.map_cons, List.mem_append, List.mem_cons] at hx
    rw [List.map_append, List.mem_append]
    rcases hx with hx | rfl | hx
    · exact .inl (.inl hx)
    · exact .inr rfl
    · exact .inl (.inr hx)

theorem Desk.revision_of_same (hrevises : desk.Revises desk' id old old)
    (hsupply : desk'.supply = desk.supply.afterTime) (ht : command.target? = some id) :
    desk.Revision command desk' id old old 0 where
  target := ht
  revises := hrevises
  supply := hsupply
  ids := by rw [Supply.nextIds_zero, List.append_nil]
  elements := fun x hx => .inl ⟨x, hx, .refl x⟩
  kept := fun x hx => .inl hx

/-- **The three things a command does**: nothing, filing a diagram, or revising one. -/
theorem Command.Effect.cases (h : command.Effect desk answer desk') :
    (command.target? = none ∧ (desk' = desk ∨ ∃ d, desk.Files desk' d)) ∨
      ∃ id old new n, desk.Revision command desk' id old new n := by
  -- a command files a new diagram, looks at one, or revises the one it names
  cases command with
  | create name =>
    obtain ⟨d, _, hfiles, _⟩ := h
    exact .inl ⟨rfl, .inr ⟨d, hfiles⟩⟩
  | readText text dialect settings =>
    obtain ⟨d, _, hfiles, _⟩ := h
    exact .inl ⟨rfl, .inr ⟨d, hfiles⟩⟩
  | get id =>
    obtain ⟨_, _, _, _, hsame⟩ := h
    exact .inl ⟨rfl, .inl hsame⟩
  | writeText id name =>
    obtain ⟨_, _, _, hsame, _⟩ := h
    exact .inl ⟨rfl, .inl hsame⟩
  | addNode id kind position size text =>
    obtain ⟨_, _, _, hadds, _⟩ := h
    exact .inr ⟨_, _, _, _, hadds.revision rfl⟩
  | connect id source target kind =>
    obtain ⟨_, _, _, hadds, _⟩ := h
    exact .inr ⟨_, _, _, _, hadds.revision rfl⟩
  | annotate id position text =>
    obtain ⟨_, _, _, hadds, _⟩ := h
    exact .inr ⟨_, _, _, _, hadds.revision rfl⟩
  | update id element values =>
    obtain ⟨_, hsupply, _, _, _, _, _, _, _, hreplaces, hrevises⟩ := h
    exact .inr ⟨_, _, _, _, Desk.revision_of_replaces hreplaces hrevises hsupply rfl⟩
  | remove id element =>
    obtain ⟨hsupply, ⟨_, e, _, rfl, hrevises⟩ | ⟨_, _, hrevises⟩⟩ := h
    · exact .inr ⟨_, _, _, _, Desk.revision_of_remove hrevises hsupply⟩
    · exact .inr ⟨_, _, _, _, Desk.revision_of_same hrevises hsupply rfl⟩

end ClassAtlas
