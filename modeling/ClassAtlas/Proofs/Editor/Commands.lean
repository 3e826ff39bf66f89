import ClassAtlas.Proofs.Dialect
import ClassAtlas.Proofs.Editor.Changes
import ClassAtlas.Proofs.Editor.Effect
import ClassAtlas.Proofs.Editor.Operations

/-!
# Commands have their effects

On a sound desk every command is refused and leaves the archive as it was, or it is carried out and
has its effect. A command looks before it takes anything: the only check behind the first id taken
is the one for an id that is in use, and on a sound desk it never fails. A reading in layers is the
one exception. It puts a diagram together before the engine is asked to draw it, and if the engine
fails, what was taken for the diagram is lost.
-/

namespace ClassAtlas

/-- How a command is refused, and the desk after that. -/
inductive Desk.Refuses (desk : Desk) : Command → Failure → Desk → Prop
  /-- It asks for what there is not or what cannot be, and nothing has been taken for it. -/
  | atOnce {command : Command} {failure : Failure} (hof : failure.isOfEditor = true) :
    Refuses desk command failure desk
  /-- It reads in layers, and the engine cannot draw a part of what is read. -/
  | undrawn {settings : ReadSettings} {chart : Chart Float} {cause : String}
    (hlayered : settings.arrangement = .layered)
    (hdraw : desk.engine.drawing settings.layout chart = .error cause) (text : String)
    (dialect : Option String) (diagram : String) (ids : Nat) :
    Refuses desk (.readText text dialect settings) (.layoutFailed diagram cause)
      { desk with supply := (desk.supply.afterIds ids).afterTime.afterTime }

/-- A command is refused, or it is carried out by the same engine and has its effect. -/
def Desk.Obeys (desk : Desk) (command : Command) : Prop :=
  (∃ failure desk', desk.step command = (.error failure, desk') ∧
    desk.Refuses command failure desk') ∨
    ∃ answer desk', desk.step command = (.ok answer, desk') ∧ desk'.engine = desk.engine ∧
      command.Effect desk answer desk'

namespace Desk

variable {desk desk' : Desk} {command : Command} {failure : Failure} {d : Diagram Float}
  {id : String}

/-! ## Refusing -/

/-- A refusal leaves the archive. -/
theorem Refuses.idles (h : desk.Refuses command failure desk') : desk.Idles desk' := by
  cases h with
  | atOnce hof => exact .refl desk
  | undrawn hlayered hdraw text dialect diagram ids => exact ⟨rfl, ids, 2, rfl⟩

/-- Where it is not the engine that fails, nothing at all is changed. -/
theorem Refuses.eq_of_drawn (h : desk.Refuses command failure desk')
    (hdrawn : ∀ diagram cause, failure ≠ .layoutFailed diagram cause) :
    desk' = desk ∧ failure.isOfEditor = true := by
  cases h with
  | atOnce hof => exact ⟨rfl, hof⟩
  | undrawn => exact absurd rfl (hdrawn _ _)

/-- Where the engine fails, it is for what was read in layers. -/
theorem Refuses.of_layoutFailed {diagram cause : String}
    (h : desk.Refuses command (.layoutFailed diagram cause) desk') :
    ∃ text dialect settings chart, command = .readText text dialect settings ∧
      settings.arrangement = .layered ∧
      desk.engine.drawing settings.layout chart = .error cause := by
  cases h with
  | atOnce hof => cases hof
  | undrawn hlayered hdraw text dialect => exact ⟨text, dialect, _, _, rfl, hlayered, hdraw⟩

/-! ## Operations of a command -/

theorem step_load {α : Type} {op : Diagram Float → Edit α} (id : String) (desk : Desk) :
    (Edit.load id >>= op).runOn desk = match desk.archive.find? id with
      | some d => (op d).runOn desk
      | none => (.error (.noDiagram id), desk) := by
  rw [Edit.runOn_bind, Edit.runOn_load]
  cases desk.archive.find? id <;> rfl

theorem mem_ids_of_find? {x : String} (h : (d.find? x).isSome = true) : x ∈ d.ids := by
  unfold Diagram.find? at h
  obtain ⟨e, he, hid⟩ := List.find?_isSome.mp h
  exact List.mem_map.mpr ⟨e, he, by simpa using hid⟩

section Settles

variable {α β : Type} {answer : α → Answer}

/-- What an operation of a command settles: the command is refused, or it is carried out by the same
engine, with a result that makes its answer. -/
def Settles (desk : Desk) (command : Command) (answer : α → Answer) (op : Edit α) : Prop :=
  (∃ failure desk', op.runOn desk = (.error failure, desk') ∧
    desk.Refuses command failure desk') ∨
    ∃ a desk', op.runOn desk = (.ok a, desk') ∧ desk'.engine = desk.engine ∧
      command.Effect desk (answer a) desk'

/-- A command obeys if the whole of its operation settles it. -/
theorem Settles.obeys {op : Edit α} (hrun : command.run = answer <$> op)
    (h : desk.Settles command answer op) : desk.Obeys command := by
  unfold Obeys
  rw [step_eq, hrun, Edit.runOn_map]
  obtain ⟨failure, desk', hop, hrefuses⟩ | ⟨a, desk', hop, hengine, heffect⟩ := h
  · rw [hop]
    exact .inl ⟨failure, desk', rfl, hrefuses⟩
  · rw [hop]
    exact .inr ⟨answer a, desk', rfl, hengine, heffect⟩

theorem settles_refuse (hof : failure.isOfEditor = true) :
    desk.Settles command answer (Edit.refuse failure) :=
  .inl ⟨failure, desk, rfl, .atOnce hof⟩

theorem Settles.ofExcept {result : Except Failure β} {next : β → Edit α}
    (herror : ∀ failure, result = .error failure → failure.isOfEditor = true)
    (hok : ∀ b, result = .ok b → desk.Settles command answer (next b)) :
    desk.Settles command answer (Edit.ofExcept result >>= next) := by
  cases result with
  | error failure => exact .inl ⟨failure, desk, rfl, .atOnce (herror failure rfl)⟩
  | ok b => exact hok b rfl

/-- An operation on a diagram settles its command if it does so for the diagram that is there. -/
theorem Settles.load {op : Diagram Float → Edit α}
    (hfound : ∀ d, desk.archive.find? id = some d → desk.Settles command answer (op d)) :
    desk.Settles command answer (Edit.load id >>= op) := by
  unfold Settles
  rw [step_load]
  cases hfind : desk.archive.find? id with
  | none => exact .inl ⟨_, _, rfl, .atOnce rfl⟩
  | some d => exact hfound d hfind

theorem Settles.require {element : String} {op : Unit → Edit α}
    (hfound : element ∈ d.ids → desk.Settles command answer (op ())) :
    desk.Settles command answer (Edit.require d id element >>= op) := by
  unfold Settles
  rw [Edit.runOn_bind, Edit.runOn_require]
  by_cases helement : (d.find? element).isSome = true
  · rw [if_pos helement]
    exact hfound (mem_ids_of_find? helement)
  · rw [if_neg helement]
    exact .inl ⟨_, _, rfl, .atOnce rfl⟩

end Settles

/-! ## Filing -/

theorem Sound.not_mem_nextIds (h : desk.Sound) {n : Nat} {x : String}
    (hx : x ∈ desk.supply.nextIds n) : x ∉ desk.archive.ids :=
  fun hmem => Supply.not_taken_of_mem_nextIds h.injective hx (h.taken x hmem)

theorem Sound.entries_put_new (h : desk.Sound) {n : Nat}
    (hids : d.allIds = desk.supply.nextIds n) :
    (desk.archive.put d.id d).entries = desk.archive.entries ++ [(d.id, d)] := by
  have hid : d.id ∈ d.allIds := List.mem_cons_self ..
  exact h.keyed.entries_put_new (h.not_mem_nextIds (hids ▸ hid))

theorem obeys_create (h : desk.Sound) (name : String) : desk.Obeys (.create name) := by
  have hrun := congrArg (fun r => (r.1.map Answer.diagram, r.2)) (Edit.runOn_create name desk)
  refine .inr ⟨_, _, (Edit.runOn_map _ _ _).trans hrun, rfl, _, rfl, ?_, rfl, rfl⟩
  refine ⟨h.entries_put_new (n := 1) rfl, rfl, rfl, rfl, ?_, rfl⟩
  intro e he
  exact absurd he (by simp)

/-- The diagram of an assembly that has grown from nothing is filed when it is saved. -/
theorem Sound.files (h : desk.Sound) {settings : ReadSettings} {a : Assembly}
    (hgrows : (Assembly.start settings desk.supply).Grows a) (hclosed : a.diagram.Closed) :
    desk.Files (Desk.saved { desk with supply := a.supply } a.diagram)
      { a.diagram with updated := a.supply.now } := by
  obtain ⟨hids, hsupply, hbare⟩ := hgrows.taken
  have hcreated : a.diagram.created = desk.supply.now := congrArg Diagram.created hbare
  have hstamped := h.entries_put_new (d := { a.diagram with updated := a.supply.now }) hids
  refine ⟨hstamped, hids, hcreated, ?_, hclosed, ?_⟩
  · rw [hsupply]
    rfl
  · show a.supply.afterTime = _
    rw [hsupply]

theorem isOfEditor_of_find {catalogue : Catalogue} {name : Option String}
    (h : catalogue.find name = .error failure) : failure.isOfEditor = true := by
  unfold Catalogue.find at h
  split at h
  · cases h
  · cases h
    rfl

theorem step_readText (desk : Desk) (text : String) (dialect : Option String)
    (settings : ReadSettings) :
    desk.step (.readText text dialect settings) =
      match Catalogue.standard.choose dialect text with
      | .error failure => (.error failure, desk)
      | .ok found =>
        let a := found.assemble settings desk.supply text
        match a.finish desk.engine with
        | .error failure => (.error failure, { desk with supply := a.supply })
        | .ok b => (.ok (.diagram { b.diagram with updated := a.supply.now }),
            Desk.saved { desk with supply := a.supply } b.diagram) := by
  rw [step_eq, Command.run, Edit.runOn_map, Edit.runOn_readText]
  cases Catalogue.standard.choose dialect text with
  | error failure => rfl
  | ok found =>
    dsimp only
    cases (found.assemble settings desk.supply text).finish desk.engine <;> rfl

theorem obeys_readText (h : desk.Sound) (text : String) (dialect : Option String)
    (settings : ReadSettings) : desk.Obeys (.readText text dialect settings) := by
  unfold Obeys
  rw [step_readText]
  cases hchoose : Catalogue.standard.choose dialect text with
  | error failure => exact .inl ⟨_, _, rfl, .atOnce (isOfEditor_of_find hchoose)⟩
  | ok found =>
    -- whatever the engine does, the ids and times that are taken are those of the assembly
    have hgrows := found.grows_assemble settings desk.supply text
    have hgives := hgrows.gives_finish desk.engine
    dsimp only
    cases hfinish : (found.assemble settings desk.supply text).finish desk.engine with
    | error failure =>
      rw [hfinish] at hgives
      cases hgives with
      | failed hlayered hdraw diagram =>
        refine .inl ⟨_, _, rfl, ?_⟩
        rw [hgrows.taken.2.1]
        exact .undrawn hlayered hdraw text dialect diagram _
    | ok b =>
      have hmoves := hgives.of_eq_ok hfinish
      have hclosed : b.diagram.Closed :=
        (hmoves.sound (found.sound_assemble settings h.injective text)).closed
      have hgrows' := hgrows.trans hmoves.grows
      rw [← hmoves.supply_eq]
      refine .inr ⟨_, _, rfl, rfl, _, rfl, h.files hgrows' hclosed, ?_⟩
      exact congrArg Diagram.name hgrows'.header

/-! ## Looking -/

theorem obeys_get (h : desk.Sound) (id : String) : desk.Obeys (.get id) := by
  unfold Obeys
  rw [step_eq, Command.run, Edit.runOn_map, Edit.runOn_load]
  cases hfind : desk.archive.find? id with
  | none => exact .inl ⟨_, _, rfl, .atOnce rfl⟩
  | some d =>
    obtain ⟨hd, hid⟩ := h.keyed.of_find? hfind
    exact .inr ⟨_, _, rfl, rfl, d, hd, hid, rfl, rfl⟩

theorem obeys_writeText (h : desk.Sound) (id name : String) :
    desk.Obeys (.writeText id name) := by
  refine Settles.obeys rfl ?_
  -- the dialect is looked up before the diagram
  refine .ofExcept (fun _ => isOfEditor_of_find) fun dialect hdialect => .load fun d hfind => ?_
  obtain ⟨hd, hid⟩ := h.keyed.of_find? hfind
  exact .inr ⟨_, _, rfl, rfl, d, hd, hid, rfl, dialect, hdialect, rfl⟩

/-! ## Revising -/

theorem Sound.nodup_keys (h : desk.Sound) : desk.archive.keys.Nodup :=
  h.keyed.keys_eq ▸ Archive.nodup_diagramIds h.ids

/-- Saving a diagram with other elements revises it in its place. -/
theorem Sound.revises (h : desk.Sound) (hfind : desk.archive.find? id = some d)
    (new : List (Element Float)) :
    desk.Revises (desk.saved { d with elements := new }) id d.elements new := by
  obtain ⟨-, rfl⟩ := h.keyed.of_find? hfind
  obtain ⟨front, back, hsplit⟩ := List.append_of_mem (Archive.entry_of_find? hfind)
  exact ⟨front, d, back, hsplit, rfl, rfl, Archive.entries_put_old h.nodup_keys hsplit _⟩

theorem Sound.nodup_ids (h : desk.Sound) (hd : d ∈ desk.archive.diagrams) : d.ids.Nodup :=
  (List.nodup_cons.mp (Archive.nodup_allIds h.ids hd)).2

theorem Sound.nextId_not_mem (h : desk.Sound) (hd : d ∈ desk.archive.diagrams) :
    desk.supply.nextId ∉ d.ids := by
  intro hmem
  have hids : desk.supply.nextId ∈ desk.archive.ids :=
    Archive.mem_ids.mpr ⟨d, hd, List.mem_cons_of_mem _ hmem⟩
  exact Supply.not_taken_nextId h.injective (h.taken _ hids)

/-- The next id is new to a diagram, so an element can be added under it. -/
theorem Sound.settles_add (h : desk.Sound) (hfind : desk.archive.find? id = some d)
    {element : String → Element Float} (hid : ∀ x, (element x).id = x)
    (hknown : ∀ x, (element x).isKnown = true) (hends : ∀ x, ∀ y ∈ (element x).endIds, y ∈ d.ids)
    (heffect : ∀ x desk', desk.Adds desk' id d.elements (element x) →
      command.Effect desk (.element (element x)) desk') :
    desk.Settles command .element (Edit.add d element) := by
  have hnew := h.nextId_not_mem (h.keyed.of_find? hfind).1
  refine .inr ⟨_, _, Edit.runOn_add (Diagram.insert_of_not_mem (hid _ ▸ hnew)), rfl, ?_⟩
  refine heffect _ _ ⟨h.revises hfind (d.elements ++ [element desk.supply.nextId]), hid _,
    hknown _, ?_, rfl⟩
  intro y hy
  refine ⟨hends _ y hy, ?_⟩
  -- the ends are there already, and the new id is not
  rintro rfl
  exact hnew (hid desk.supply.nextId ▸ hends _ _ hy)

theorem obeys_addNode (h : desk.Sound) (id kind : String) (position : Point Float)
    (size : Option (Size Float)) (text : Option String) :
    desk.Obeys (.addNode id kind position size text) := by
  refine Settles.obeys rfl ?_
  unfold Edit.addNode
  dsimp only
  split
  · rename_i hk
    refine .load fun d hfind => ?_
    -- a box joins nothing, so there are no ends to look for
    exact h.settles_add hfind (fun _ => rfl) (fun _ => hk)
      (fun _ _ hy => absurd hy List.not_mem_nil) fun _ _ hadds => ⟨_, _, rfl, hadds, rfl⟩
  · exact settles_refuse rfl

theorem obeys_annotate (h : desk.Sound) (id : String) (position : Point Float) (text : String) :
    desk.Obeys (.annotate id position text) := by
  refine Settles.obeys rfl ?_
  refine .load fun d hfind => ?_
  exact h.settles_add hfind (fun _ => rfl) (fun _ => rfl)
    (fun _ _ hy => absurd hy List.not_mem_nil) fun _ _ hadds => ⟨_, _, rfl, hadds, rfl⟩

theorem obeys_connect (h : desk.Sound) (id source target kind : String) :
    desk.Obeys (.connect id source target kind) := by
  refine Settles.obeys rfl ?_
  unfold Edit.connect
  dsimp only
  split
  · rename_i hk
    refine .load fun d hfind => .require fun hs => .require fun ht => ?_
    -- both ends are found, so the new arrow joins elements of the diagram
    refine h.settles_add hfind (fun _ => rfl) (fun _ => hk) ?_ fun _ _ hadds =>
      ⟨_, _, rfl, hadds, rfl⟩
    intro x y hy
    rcases List.mem_pair.mp hy with rfl | rfl
    · exact hs
    · exact ht
  · exact settles_refuse rfl

theorem step_update_of_unknown {element : String} {values : NamedValues Float}
    (hunknown : values.unknown ≠ []) :
    desk.step (.update id element values) =
      (.error (.fixedFields values.unknown), desk) := by
  rw [step_eq, Command.run, Edit.runOn_map]
  unfold Edit.update Changes.ofNamed
  rw [if_neg hunknown]
  rfl

theorem step_update {element : String} {values : NamedValues Float}
    (hknown : values.unknown = []) :
    desk.step (.update id element values) =
      match desk.archive.find? id with
      | none => (.error (.noDiagram id), desk)
      | some d =>
        match d.find? element with
        | none => (.error (.noElement id element), desk)
        | some old =>
          match values.changes.apply old with
          | .error failure => (.error failure, desk)
          | .ok new => (.ok (.element new), desk.saved (d.modify element fun _ => new)) := by
  rw [step_eq, Command.run, Edit.runOn_map]
  unfold Edit.update Changes.ofNamed
  rw [if_pos hknown, Edit.runOn_bind, Edit.runOn_ofExcept]
  dsimp only
  rw [step_load]
  cases desk.archive.find? id with
  | none => rfl
  | some d =>
    dsimp only
    cases d.find? element with
    | none => rfl
    | some old =>
      dsimp only
      rw [Edit.runOn_bind, Edit.runOn_ofExcept]
      cases values.changes.apply old <;> rfl

/-- With ids used once, changing the first element with an id changes that element alone. -/
theorem modifyFirst_eq_map {id : String} {f : Element Float → Element Float}
    {es : List (Element Float)} (hn : (es.map Element.id).Nodup) :
    modifyFirst id f es = es.map fun e => if e.id = id then f e else e := by
  induction es with
  | nil => rfl
  | cons e es ih =>
    obtain ⟨hnot, hn'⟩ := List.nodup_cons.mp hn
    rw [modifyFirst, List.map_cons]
    split
    · -- no later element has the id, so the map changes none of them
      rename_i hid
      refine congrArg (f e :: ·) ?_
      have hsame : ∀ x ∈ es, (if x.id = id then f x else x) = x := by
        intro x hx
        rw [if_neg]
        intro heq
        exact hnot (by rw [hid, ← heq]; exact List.mem_map_of_mem hx)
      rw [List.map_congr_left hsame, List.map_id']
    · rw [ih hn']

/-- Ids differ, so the first element with an id is the only one. -/
theorem Sound.modify_eq (h : desk.Sound) (hd : d ∈ desk.archive.diagrams)
    {before after : List (Element Float)} {old : Element Float}
    (hsplit : d.elements = before ++ old :: after) (new : Element Float) :
    (d.modify old.id fun _ => new) = { d with elements := before ++ new :: after } := by
  have hn : (d.elements.map Element.id).Nodup := h.nodup_ids hd
  unfold Diagram.modify
  rw [modifyFirst_eq_map hn, hsplit, map_replace (hsplit ▸ hn)]

theorem obeys_update (h : desk.Sound) (id element : String) (values : NamedValues Float) :
    desk.Obeys (.update id element values) := by
  refine Settles.obeys rfl ?_
  refine .ofExcept (fun _ => Changes.isOfEditor_of_ofNamed) fun changes hchanges => ?_
  refine .load fun d hfind => ?_
  obtain ⟨hknown, rfl⟩ := Changes.ofNamed_eq_ok_iff.mp hchanges
  cases hold : d.find? element with
  | none => exact settles_refuse rfl
  | some old =>
    refine .ofExcept (fun _ => values.changes.careful_apply.error) fun new hnew => ?_
    have hd := (h.keyed.of_find? hfind).1
    -- the element found is the only one of its id, so that changing by id exchanges this one
    have hid : old.id = element := by simpa using List.find?_some hold
    obtain ⟨before, after, hsplit⟩ := List.append_of_mem (List.mem_of_find?_eq_some hold)
    refine .inr ⟨new, _, rfl, rfl, hknown, rfl, before, old, after, new, hid, hnew,
      rfl, values.changes.careful_apply.ok hnew, ?_⟩
    rw [← hsplit, ← hid, h.modify_eq hd hsplit]
    exact h.revises hfind (before ++ new :: after)

theorem obeys_remove (h : desk.Sound) (id element : String) : desk.Obeys (.remove id element) := by
  refine Settles.obeys rfl ?_
  refine .load fun d hfind => .inr ⟨(), desk.saved (d.erase element), rfl, rfl, rfl, ?_⟩
  by_cases hmem : element ∈ d.ids
  · -- ids are unique: erasing one cuts out a single element
    obtain ⟨e, he, rfl⟩ := List.mem_map.mp hmem
    obtain ⟨before, after, hsplit⟩ := List.append_of_mem he
    have hn : (d.elements.map Element.id).Nodup := h.nodup_ids (h.keyed.of_find? hfind).1
    have herase : d.erase e.id = { d with elements := before ++ after } := by
      unfold Diagram.erase
      rw [hsplit, filter_key_ne (hsplit ▸ hn)]
    refine .inl ⟨before, e, after, rfl, ?_⟩
    rw [← hsplit, herase]
    exact h.revises hfind (before ++ after)
  · -- an id that is not there is no reason to refuse, and the diagram is saved as it is
    have herase : d.erase element = { d with elements := d.elements } := by
      unfold Diagram.erase
      rw [List.filter_eq_self.mpr]
      intro e he
      have hne : e.id ≠ element := fun heq => hmem (heq ▸ List.mem_map_of_mem he)
      simpa using hne
    refine .inr ⟨d.elements, hmem, ?_⟩
    rw [herase]
    exact h.revises hfind d.elements

/-- **Every command obeys.** On a sound desk a command is refused, or it has its effect. -/
theorem Sound.obeys (h : desk.Sound) (command : Command) : desk.Obeys command := by
  cases command with
  | create name => exact obeys_create h name
  | get id => exact obeys_get h id
  | addNode id kind position size text => exact obeys_addNode h id kind position size text
  | connect id source target kind => exact obeys_connect h id source target kind
  | annotate id position text => exact obeys_annotate h id position text
  | update id element values => exact obeys_update h id element values
  | remove id element => exact obeys_remove h id element
  | readText text dialect settings => exact obeys_readText h text dialect settings
  | writeText id dialect => exact obeys_writeText h id dialect

end Desk

end ClassAtlas
