import ClassAtlas.Proofs.Editor.History

/-!
# Fields that may not be empty

A box and a note have a place, and a note has a text. Adding an element and reading a text fill
these fields, and so does a layout. An edit, however, writes what it is given into any field that
the element has, the ones that may be empty and the ones that may not, and it may be given nothing.
So a required field is filled until an edit that is carried out clears it, and empty until another
one fills it again: its state is what the last such edit made of it.
-/

namespace ClassAtlas

variable {K : Type}

/-- A field that the elements which need it may not be without. The size, the text and the members
of a box and the line of an arrow may be missing. -/
inductive RequiredField where
  /-- The place of a box or a note. -/
  | position
  /-- The text of a note. -/
  | text

namespace Element

/-- Whether a required field is filled, `none` where the element does not need it. -/
def filled? : RequiredField → Element K → Option Bool
  | .position, .node n => some n.position.isSome
  | .position, .note t => some t.position.isSome
  | .text, .note t => some t.text.isSome
  | _, _ => none

/-- An element has what it needs. -/
def Complete : Element K → Prop
  | .node n => n.position ≠ none
  | .arrow _ => True
  | .note t => t.text ≠ none ∧ t.position ≠ none

theorem Complete.moveTo {e : Element K} (h : e.Complete) (corner : Point K) :
    (e.moveTo corner).Complete := by
  unfold Element.moveTo
  split
  · exact Option.some_ne_none _
  · exact h

theorem Complete.reroute {e : Element Float} (h : e.Complete) (settings : LayoutSettings Float)
    (d : Diagram Float) : (d.reroute settings e).Complete := by
  unfold Diagram.reroute
  split
  · exact h
  · split
    · trivial
    · exact h

theorem complete_iff {e : Element K} : e.Complete ↔ ∀ field, e.filled? field ≠ some false := by
  have both (p : RequiredField → Prop) : (∀ field, p field) ↔ p .position ∧ p .text :=
    ⟨fun h => ⟨h _, h _⟩, fun h field => by cases field; exacts [h.1, h.2]⟩
  rw [both]
  cases e with
  | node n => simp [Complete, filled?]
  | arrow a => simp [Complete, filled?]
  | note t => simp [Complete, filled?, and_comm]

end Element

/-! ## What an edit gives to a field -/

/-- What an edit does to a field: whether it fills it or clears it, `none` if it leaves it. -/
def Changes.gives (c : Changes K) : RequiredField → Option Bool
  | .position => c.position.map Option.isSome
  | .text => c.text.map Option.isSome

namespace Element

variable {set : Element K → Except Failure (Element K)} {field : RequiredField} {e e' : Element K}

/-- A change makes of a field what it is given, and leaves it where nothing is given. -/
def Fills (field : RequiredField) (given : Option Bool)
    (set : Element K → Except Failure (Element K)) : Prop :=
  ∀ ⦃e e'⦄, set e = .ok e' → e'.filled? field = (e.filled? field).map given.getD

theorem fills_none (h : ∀ ⦃e e'⦄, set e = .ok e' → e'.filled? field = e.filled? field) :
    Fills field none set := by
  intro e e' heq
  rw [h heq]
  exact (Option.map_id' ..).symm

theorem Fills.bind {f g : Element K → Except Failure (Element K)} {given given' : Option Bool}
    (hf : Fills field given f) (hg : Fills field given' g) :
    Fills field (given'.or given) fun e => f e >>= g := by
  intro e e'' (h : (f e >>= g) = .ok e'')
  cases he : f e with
  | error failure =>
    rw [he] at h
    cases h
  | ok e' =>
    rw [he] at h
    rw [hg h, hf he, Option.map_map]
    cases given' <;> rfl

theorem Fills.setIf {α : Type} {set : α → Element K → Except Failure (Element K)}
    {given : α → Option Bool} (h : ∀ a, Fills field (given a) (set a)) (value : Option α) :
    Fills field (value.bind given) (Element.setIf value set) := by
  cases value with
  | some a => exact h a
  | none =>
    refine fills_none fun e e' heq => ?_
    cases heq
    rfl

theorem fills_setKind (field : RequiredField) (word : String) :
    Fills field none (setKind word : Element K → _) := by
  refine fills_none fun e e' h => ?_
  unfold setKind at h
  cases e with
  | note t => cases h
  | node n => dsimp only at h; split at h <;> cases h; cases field <;> rfl
  | arrow a => dsimp only at h; split at h <;> cases h; cases field <;> rfl

theorem fills_setSize (field : RequiredField) (size : Option (Size K)) :
    Fills field none (setSize size) := by
  refine fills_none fun e e' h => ?_
  cases e <;> cases h
  cases field <;> rfl

theorem fills_setMembers (field : RequiredField) (members : Option Members) :
    Fills field none (setMembers members : Element K → _) := by
  refine fills_none fun e e' h => ?_
  cases e <;> cases h
  cases field <;> rfl

theorem fills_setPoints (field : RequiredField) (points : Option (List (Point K))) :
    Fills field none (setPoints points) := by
  refine fills_none fun e e' h => ?_
  cases e <;> cases h
  cases field <;> rfl

theorem fills_text_setText (text : Option String) :
    Fills .text (some text.isSome) (setText text : Element K → _) := by
  intro e e' h
  cases e <;> cases h <;> rfl

theorem fills_position_setText (text : Option String) :
    Fills .position none (setText text : Element K → _) := by
  refine fills_none fun e e' h => ?_
  cases e <;> cases h <;> rfl

theorem fills_position_setPosition (position : Option (Point K)) :
    Fills .position (some position.isSome) (setPosition position) := by
  intro e e' h
  cases e <;> cases h <;> rfl

theorem fills_text_setPosition (position : Option (Point K)) :
    Fills .text none (setPosition position) := by
  refine fills_none fun e e' h => ?_
  cases e <;> cases h <;> rfl

end Element

open Element in
/-- **An edit makes of every required field what it gives to it.** -/
theorem Changes.fills_apply (c : Changes K) (field : RequiredField) :
    Fills field (c.gives field) c.apply := by
  cases field with
  | position =>
    -- step by step: of the six changes only one touches the field
    have h := (Fills.setIf (fills_setKind .position) c.newKind).bind <|
      (Fills.setIf (fills_setSize .position) c.size).bind <|
      (Fills.setIf fills_position_setText c.text).bind <|
      (Fills.setIf (fills_setMembers .position) c.members).bind <|
      (Fills.setIf fills_position_setPosition c.position).bind <|
      Fills.setIf (fills_setPoints .position) c.points
    simp only [Option.bind_fun_none, Option.none_or, Option.or_none] at h
    have hgives : c.gives .position = c.position.bind (some ∘ Option.isSome) := Option.map_eq_bind
    exact hgives ▸ h
  | text =>
    have h := (Fills.setIf (fills_setKind .text) c.newKind).bind <|
      (Fills.setIf (fills_setSize .text) c.size).bind <|
      (Fills.setIf fills_text_setText c.text).bind <|
      (Fills.setIf (fills_setMembers .text) c.members).bind <|
      (Fills.setIf fills_text_setPosition c.position).bind <|
      Fills.setIf (fills_setPoints .text) c.points
    simp only [Option.bind_fun_none, Option.none_or, Option.or_none] at h
    have hgives : c.gives .text = c.text.bind (some ∘ Option.isSome) := Option.map_eq_bind
    exact hgives ▸ h

/-! ## Elements of a reading -/

namespace Assembly

/-- All elements have what they need. -/
def Complete (a : Assembly) : Prop := ∀ e ∈ a.diagram.elements, e.Complete

variable {a : Assembly}

theorem complete_start (settings : ReadSettings) (supply : Supply) :
    (start settings supply).Complete := by
  intro e he
  exact absurd he List.not_mem_nil

theorem Complete.add (h : a.Complete) {element : String → Element Float}
    (helement : ∀ id, (element id).Complete) : (a.add element).Complete := by
  intro e he
  rcases List.mem_append.mp he with he | he
  · exact h e he
  · obtain rfl := List.mem_singleton.mp he
    exact helement _

theorem Complete.declare (h : a.Complete) (name : String) (kind : NodeKind) :
    (a.declare name kind).2.Complete := by
  unfold Assembly.declare
  split
  · exact h
  · have hadd : (a.add (.node <| a.newNode name kind ·)).Complete :=
      h.add fun id => Option.some_ne_none _
    exact hadd

theorem Complete.relate (h : a.Complete) (r : Relation) : (a.relate r).2.Complete := by
  unfold Assembly.relate
  split
  · exact h.add fun id => trivial
  · exact h

theorem Complete.enrich (h : a.Complete) (name : String) (members : Members) :
    (a.enrich name members).Complete := by
  unfold Assembly.enrich
  split
  · split
    · exact h
    · intro e he
      -- members are no required field
      obtain ⟨i, hi⟩ := List.mem_iff_getElem?.mp he
      rw [List.getElem?_modify, Option.map_eq_map, Option.map_eq_some_iff] at hi
      obtain ⟨old, hold, rfl⟩ := hi
      have hcomplete := h old (List.mem_of_getElem? hold)
      split
      · cases old <;> exact hcomplete
      · exact hcomplete
  · exact h

/-- A layout puts boxes at places and takes nothing away. -/
theorem complete_redraw {d : Diagram Float} (h : ∀ e ∈ d.elements, e.Complete)
    (settings : LayoutSettings Float) (corners : List (String × Point Float)) :
    ∀ e ∈ (d.redraw settings corners).elements, e.Complete := by
  -- a box is moved to a position, and an arrow is given a line: nothing is taken away
  have hmoved : ∀ e ∈ (d.moveBoxes corners).elements, e.Complete := by
    intro e he
    obtain ⟨i, hi⟩ := List.mem_iff_getElem?.mp he
    rw [getElem?_moveBoxes, Option.map_eq_some_iff] at hi
    obtain ⟨old, hold, rfl⟩ := hi
    have hcomplete := h old (List.mem_of_getElem? hold)
    split
    · exact hcomplete
    · unfold Element.moveIn
      cases cornerIn corners old.id with
      | none => exact hcomplete
      | some corner => exact hcomplete.moveTo corner
  rw [elements_redraw]
  intro e he
  obtain ⟨old, hold, rfl⟩ := List.mem_map.mp he
  exact (hmoved old hold).reroute settings (d.moveBoxes corners)

theorem Complete.finish {engine : Engine Float} {b : Assembly} (h : a.Complete)
    (hb : a.finish engine = .ok b) : b.Complete := by
  unfold Assembly.finish at hb
  split at hb
  · obtain ⟨x, hx, rfl⟩ := map_eq_ok.mp hb
    obtain ⟨corners, -, rfl⟩ := arrangeWith_eq_ok_iff.mp hx
    exact complete_redraw h a.settings.layout corners
  · cases hb
    exact h

theorem Complete.foldl {α : Type} {f : Assembly → α → Assembly}
    (hf : ∀ a x, Complete a → Complete (f a x)) (h : a.Complete) (xs : List α) :
    (xs.foldl f a).Complete := by
  induction xs generalizing a with
  | nil => exact h
  | cons x xs ih => exact ih (hf a x h)

end Assembly

open Assembly

theorem Markup.complete_assemble (settings : ReadSettings) (supply : Supply) (text : String) :
    (Markup.assemble settings supply text).Complete := by
  unfold Markup.assemble
  refine Complete.foldl (fun a r h => h.relate r) ?_ _
  exact Complete.foldl (fun a name h => h.declare name _) (complete_start settings supply) _

theorem Code.complete_assemble (settings : ReadSettings) (supply : Supply) (text : String) :
    (Code.assemble settings supply text).Complete := by
  have htypes : (declareTypes (.start settings supply) text).Complete :=
    Complete.foldl (fun a name h => h.declare name _)
      (Complete.foldl (fun a name h => h.declare name _) (complete_start settings supply) _) _
  unfold Code.assemble
  refine Complete.foldl ?_ (Complete.foldl (fun a r h => h.relate r) htypes _) _
  intro a name h
  exact Complete.foldl (fun a body h => h.enrich name _) h _

/-- **Whatever is put together from a text has what it needs.** -/
theorem Dialect.complete_assemble (dialect : Dialect) (settings : ReadSettings) (supply : Supply)
    (text : String) : (dialect.assemble settings supply text).Complete := by
  cases dialect with
  | markup => exact Markup.complete_assemble settings supply text
  | code => exact Code.complete_assemble settings supply text

namespace Desk

variable {desk desk' : Desk} {command : Command} {commands : List Command} {d : Diagram Float}
  {e : Element Float} {diagram x : String} {field : RequiredField}

/-! ## What a run gives to a field -/

/-- What a command gives to a field of an element: something only if it is an edit of that element
and is carried out. -/
def given (desk : Desk) (diagram x : String) (field : RequiredField) : Command → Option Bool
  | .update diagram' x' values =>
    if diagram' = diagram ∧ x' = x ∧ (desk.step (.update diagram' x' values)).1.isOk then
      values.changes.gives field
    else none
  | _ => none

/-- What the last of some commands that gives anything to a field gives to it. -/
def lastGiven (diagram x : String) (field : RequiredField) : Desk → List Command → Option Bool
  | _, [] => none
  | desk, command :: commands =>
    (lastGiven diagram x field (desk.step command).2 commands).or
      (desk.given diagram x field command)

theorem lastGiven_concat (desk : Desk) (commands : List Command) (command : Command) :
    lastGiven diagram x field desk (commands ++ [command]) =
      ((desk.run commands).given diagram x field command).or
        (lastGiven diagram x field desk commands) := by
  induction commands generalizing desk with
  | nil => simp [lastGiven, run]
  | cons first commands ih =>
    rw [List.cons_append, lastGiven, ih, lastGiven, Option.or_assoc]
    rfl

theorem of_given {filled : Bool} (h : desk.given diagram x field command = some filled) :
    ∃ values, command = .update diagram x values ∧ (desk.step command).1.isOk = true ∧
      values.changes.gives field = some filled := by
  cases command with
  | update diagram' x' values =>
    by_cases hedit : diagram' = diagram ∧ x' = x ∧
        (desk.step (.update diagram' x' values)).1.isOk = true
    · obtain ⟨rfl, rfl, hok⟩ := hedit
      exact ⟨values, rfl, hok, (if_pos ⟨rfl, rfl, hok⟩).symm.trans h⟩
    · exact absurd ((if_neg hedit).symm.trans h) (by simp)
  | _ => exact absurd h (by simp [given])

theorem of_lastGiven {filled : Bool} (h : lastGiven diagram x field desk commands = some filled) :
    ∃ values, .update diagram x values ∈ commands ∧
      values.changes.gives field = some filled := by
  induction commands generalizing desk with
  | nil => exact absurd h (by simp [lastGiven])
  | cons command commands ih =>
    rw [lastGiven, Option.or_eq_some_iff] at h
    -- the last one among the commands to come, or else the first
    rcases h with hlater | ⟨-, hfirst⟩
    · obtain ⟨values, hmem, hgives⟩ := ih hlater
      exact ⟨values, List.mem_cons_of_mem _ hmem, hgives⟩
    · obtain ⟨values, rfl, -, hgives⟩ := of_given hfirst
      exact ⟨values, List.mem_cons_self .., hgives⟩

/-- Only elements that are there are edited. -/
theorem Sound.has_of_given (h : desk.Sound) (hgiven : desk.given diagram x field command ≠ none) :
    desk.Has diagram x := by
  obtain ⟨filled, hfilled⟩ := Option.ne_none_iff_exists'.mp hgiven
  obtain ⟨values, rfl, hok, -⟩ := of_given hfilled
  cases hanswer : (desk.step (.update diagram x values)).1 with
  | error failure =>
    rw [hanswer] at hok
    cases hok
  | ok answer =>
    -- a value is given only by a command that went through, and it found the element
    obtain ⟨-, -, before, old, after, new, rfl, -, -, -, hrevises⟩ := h.step_ok hanswer
    obtain ⟨front, d, back, hsplit, rfl, helements, -⟩ := hrevises.diagrams
    refine ⟨d, hsplit ▸ List.mem_append_right _ (List.mem_cons_self ..), rfl, ?_⟩
    unfold Diagram.ids
    rw [helements]
    exact List.mem_map_of_mem (List.mem_append_right _ (List.mem_cons_self ..))

/-- No command gives anything to an element before its id has been taken. -/
theorem Sound.lastGiven_of_not_taken (h : desk.Sound)
    (hnew : ¬ (desk.run commands).supply.Taken x) :
    lastGiven diagram x field desk commands = none := by
  induction commands using List.reverseRecOn with
  | nil => rfl
  | append_singleton commands command ih =>
    have hbefore : ¬ (desk.run commands).supply.Taken x := by
      intro htaken
      rw [run_concat] at hnew
      exact hnew (taken_step (sound_run h commands) command htaken)
    rw [lastGiven_concat, ih hbefore, Option.or_none]
    -- a value given to an element means that it was there, with an id that was taken
    by_contra hgiven
    have hsound := sound_run h commands
    exact hbefore (hsound.taken_of_has (hsound.has_of_given hgiven))

/-! ## One command -/

/-- An element after a command has just come in with all that it needs, or it was there before and
the command has made of its required fields what it gives to them. -/
def Follows (desk : Desk) (command : Command) (diagram : String) (e : Element Float) : Prop :=
  (¬ desk.supply.Taken e.id ∧ e.Complete) ∨
    ∃ d ∈ desk.archive.diagrams, d.id = diagram ∧ ∃ e₀ ∈ d.elements, e₀.id = e.id ∧
      ∀ field, e.filled? field =
        (e₀.filled? field).map (desk.given diagram e.id field command).getD

/-- An element that stays as it is follows from itself. -/
theorem follows_self (hd : d ∈ desk.archive.diagrams) (he : e ∈ d.elements)
    (hgiven : ∀ field, desk.given d.id e.id field command = none) :
    desk.Follows command d.id e := by
  refine .inr ⟨d, hd, rfl, e, he, rfl, fun field => ?_⟩
  rw [hgiven field]
  exact (Option.map_id' ..).symm

theorem Sound.follows_of_files (h : desk.Sound) (hf : desk.Files desk' d)
    (hgiven : ∀ diagram x field, desk.given diagram x field command = none)
    (hcomplete : ∀ e ∈ d.elements, e.Complete) {d' : Diagram Float}
    (hd' : d' ∈ desk'.archive.diagrams) (he : e ∈ d'.elements) : desk.Follows command d'.id e := by
  rcases List.mem_append.mp (hf.diagrams ▸ hd') with hold | hnew
  · exact follows_self hold he fun field => hgiven _ _ field
  · obtain rfl := List.mem_singleton.mp hnew
    have hnext : e.id ∈ desk.supply.nextIds (d'.elements.length + 1) :=
      hf.allIds ▸ List.mem_cons_of_mem _ (List.mem_map_of_mem he)
    exact .inl ⟨Supply.not_taken_of_mem_nextIds h.injective hnext, hcomplete e he⟩

/-- In a revised diagram it is enough to know where the new elements come from. -/
theorem follows_of_revises {id : String} {old new : List (Element Float)}
    (hr : desk.Revises desk' id old new)
    (hgiven : ∀ diagram x field, diagram ≠ id → desk.given diagram x field command = none)
    (hn : (desk.archive.diagrams.map Diagram.id).Nodup)
    (hnew : ∀ d ∈ desk.archive.diagrams, d.id = id → d.elements = old →
      ∀ e ∈ new, desk.Follows command id e)
    (hd : d ∈ desk'.archive.diagrams) (he : e ∈ d.elements) : desk.Follows command d.id e := by
  obtain ⟨front, d₀, back, hsplit, rfl, hold, hsplit'⟩ := hr.diagrams
  rw [hsplit'] at hd
  have hd₀ : d₀ ∈ desk.archive.diagrams :=
    hsplit ▸ List.mem_append_right _ (List.mem_cons_self ..)
  -- the revised diagram stands where it stood; the others are as they were
  rcases List.mem_append.mp hd with hfront | hd
  · have hne := (key_ne_of_nodup (hsplit ▸ hn)).1 d hfront
    exact follows_self (hsplit ▸ List.mem_append_left _ hfront) he fun field =>
      hgiven _ _ field hne
  · rcases List.mem_cons.mp hd with rfl | hback
    · exact hnew d₀ hd₀ rfl hold e he
    · have hne := (key_ne_of_nodup (hsplit ▸ hn)).2 d hback
      refine follows_self (hsplit ▸ ?_) he fun field => hgiven _ _ field hne
      exact List.mem_append_right _ (List.mem_cons_of_mem _ hback)

theorem complete_of_readText {text : String} {dialect : Option String} {settings : ReadSettings}
    (h : (desk.step (.readText text dialect settings)).1 = .ok (.diagram d)) :
    ∀ e ∈ d.elements, e.Complete := by
  rw [step_readText] at h
  cases hchoose : Catalogue.standard.choose dialect text with
  | error failure =>
    rw [hchoose] at h
    cases h
  | ok found =>
    rw [hchoose] at h
    dsimp only at h
    -- what has been read is complete before it is drawn, and drawing keeps it so
    cases hfinish : (found.assemble settings desk.supply text).finish desk.engine with
    | error failure =>
      rw [hfinish] at h
      cases h
    | ok b =>
      rw [hfinish] at h
      cases h
      exact (found.complete_assemble settings desk.supply text).finish hfinish

theorem Sound.follows_of_adds {id : String} {old : List (Element Float)} {new : Element Float}
    (h : desk.Sound) (ha : desk.Adds desk' id old new)
    (hgiven : ∀ diagram x field, desk.given diagram x field command = none)
    (hcomplete : new.Complete) (hd : d ∈ desk'.archive.diagrams) (he : e ∈ d.elements) :
    desk.Follows command d.id e := by
  refine follows_of_revises ha.revises (fun _ _ _ _ => hgiven _ _ _)
    (Archive.nodup_diagramIds h.ids) ?_ hd he
  rintro d₀ hd₀ rfl rfl e he
  rcases List.mem_append.mp he with hold | hnew
  · exact follows_self hd₀ hold fun field => hgiven _ _ field
  · obtain rfl := List.mem_singleton.mp hnew
    exact .inl ⟨ha.id_eq ▸ Supply.not_taken_nextId h.injective, hcomplete⟩

/-- An edit makes of the fields of its element what it gives to them, and gives nothing to any other
element. -/
theorem Sound.follows_of_edit {id : String} {values : NamedValues Float} {old new : Element Float}
    {before after : List (Element Float)} (h : desk.Sound)
    (hok : (desk.step (.update id old.id values)).1.isOk = true)
    (hnew : values.changes.apply old = .ok new) (hid : new.id = old.id)
    (hr : desk.Revises desk' id (before ++ old :: after) (before ++ new :: after))
    (hd : d ∈ desk'.archive.diagrams) (he : e ∈ d.elements) :
    desk.Follows (.update id old.id values) d.id e := by
  -- the edit gives values to one element of one diagram
  have elsewhere : ∀ diagram x field, ¬ (id = diagram ∧ old.id = x) →
      desk.given diagram x field (.update id old.id values) = none := fun _ _ _ hother =>
    if_neg fun ⟨hdiagram, hx, _⟩ => hother ⟨hdiagram, hx⟩
  refine follows_of_revises hr (fun _ _ _ hne => elsewhere _ _ _ fun heq => hne heq.1.symm)
    (Archive.nodup_diagramIds h.ids) ?_ hd he
  rintro d₀ hd₀ rfl hold e he
  have hids : (d₀.elements.map Element.id).Nodup := h.nodup_ids hd₀
  obtain ⟨hbefore, hafter⟩ := key_ne_of_nodup (hold ▸ hids)
  have stays (hmem : e ∈ before ++ old :: after) (hne : e.id ≠ old.id) :
      desk.Follows (.update d₀.id old.id values) d₀.id e :=
    follows_self hd₀ (hold ▸ hmem) fun _ => elsewhere _ _ _ fun heq => hne heq.2.symm
  -- any other element stays; the one that was changed is filled as the edit says
  rcases List.mem_append.mp he with hmem | hmem
  · exact stays (List.mem_append_left _ hmem) (hbefore e hmem)
  rcases List.mem_cons.mp hmem with rfl | hmem
  · have hgiven (field : RequiredField) :
        desk.given d₀.id e.id field (.update d₀.id old.id values) = values.changes.gives field :=
      if_pos ⟨rfl, hid.symm, hok⟩
    have hwas : old ∈ d₀.elements := hold ▸ List.mem_append_right _ (List.mem_cons_self ..)
    refine .inr ⟨d₀, hd₀, rfl, old, hwas, hid.symm, fun field => ?_⟩
    rw [hgiven]
    exact values.changes.fills_apply field hnew
  · exact stays (List.mem_append_right _ (List.mem_cons_of_mem _ hmem)) (hafter e hmem)

/-- **What one command makes of required fields.** -/
theorem Sound.follows (h : desk.Sound) (command : Command)
    (hd : d ∈ (desk.step command).2.archive.diagrams) (he : e ∈ d.elements) :
    desk.Follows command d.id e := by
  have hn := Archive.nodup_diagramIds h.ids
  rcases h.obeys command with ⟨failure, desk', hstep, hrefuses⟩ | ⟨answer, desk', hstep, -, heffect⟩
  · -- a refused command leaves the archive, and a refused edit gives nothing
    rw [hstep, hrefuses.idles.archive] at hd
    refine follows_self hd he fun field => ?_
    cases command with
    | update diagram x values =>
      refine if_neg ?_
      rintro ⟨-, -, hok⟩
      rw [hstep] at hok
      cases hok
    | _ => rfl
  rw [hstep] at hd
  cases command with
  | create name =>
    obtain ⟨d', -, hfiles, -, hempty⟩ := heffect
    refine h.follows_of_files hfiles (fun _ _ _ => rfl) (fun e he => ?_) hd he
    exact absurd (hempty ▸ he) List.not_mem_nil
  | readText text dialect settings =>
    obtain ⟨d', rfl, hfiles, -⟩ := heffect
    have hcomplete := complete_of_readText (congrArg Prod.fst hstep)
    exact h.follows_of_files hfiles (fun _ _ _ => rfl) hcomplete hd he
  | get id =>
    obtain ⟨-, -, -, -, rfl⟩ := heffect
    exact follows_self hd he fun field => rfl
  | writeText id name =>
    obtain ⟨-, -, -, rfl, -⟩ := heffect
    exact follows_self hd he fun field => rfl
  | addNode id kind position size text =>
    obtain ⟨old, new, -, hadds, hnew⟩ := heffect
    refine h.follows_of_adds hadds (fun _ _ _ => rfl) ?_ hd he
    rw [hnew]
    exact Option.some_ne_none _
  | connect id source target kind =>
    obtain ⟨old, new, -, hadds, hnew⟩ := heffect
    refine h.follows_of_adds hadds (fun _ _ _ => rfl) ?_ hd he
    rw [hnew]
    trivial
  | annotate id position text =>
    obtain ⟨old, new, -, hadds, hnew⟩ := heffect
    refine h.follows_of_adds hadds (fun _ _ _ => rfl) ?_ hd he
    rw [hnew]
    exact ⟨Option.some_ne_none _, Option.some_ne_none _⟩
  | remove id element =>
    obtain ⟨-, ⟨before, out, after, -, hrevises⟩ | ⟨old, -, hrevises⟩⟩ := heffect
    · refine follows_of_revises hrevises (fun _ _ _ _ => rfl) hn ?_ hd he
      rintro d₀ hd₀ rfl hold e he
      refine follows_self hd₀ (hold ▸ ?_) fun field => rfl
      exact ((List.sublist_cons_self out after).append_left before).subset he
    · refine follows_of_revises hrevises (fun _ _ _ _ => rfl) hn ?_ hd he
      rintro d₀ hd₀ rfl rfl e he
      exact follows_self hd₀ he fun field => rfl
  | update id element values =>
    obtain ⟨-, -, before, old, after, new, rfl, hnew, -, hreplaces, hrevises⟩ := heffect
    have hok : (desk.step (.update id old.id values)).1.isOk = true := by
      rw [hstep]
      rfl
    exact h.follows_of_edit hok hnew hreplaces.id_eq hrevises hd he

/-! ## Runs -/

/-- A required field is filled unless the last command that gave it anything has cleared it. -/
theorem filled?_run {engine : Engine Float} {supply : Supply}
    (hid : Function.Injective supply.idAt)
    (hd : d ∈ (Desk.run { engine, supply } commands).archive.diagrams) (he : e ∈ d.elements)
    {filled : Bool} (hfilled : e.filled? field = some filled) :
    filled = (lastGiven d.id e.id field { engine, supply } commands).getD true := by
  have hstart : Sound { engine, supply } := sound_empty hid
  -- the last command gives something to the field, or the commands before it have the say
  induction commands using List.reverseRecOn generalizing d e filled with
  | nil => exact absurd hd List.not_mem_nil
  | append_singleton commands command ih =>
    have hsound : (Desk.run { engine, supply } commands).Sound := sound_run hstart commands
    rw [run_concat] at hd
    rw [lastGiven_concat]
    rcases hsound.follows command hd he with
      ⟨hnew, hcomplete⟩ | ⟨d₀, hd₀, hid₀, e₀, he₀, heq, hgiven⟩
    · have hnone : (Desk.run { engine, supply } commands).given d.id e.id field command = none := by
        by_contra hsome
        exact hnew (hsound.taken_of_has (hsound.has_of_given hsome))
      rw [hnone, hstart.lastGiven_of_not_taken hnew]
      have hnot := Element.complete_iff.mp hcomplete field
      rw [hfilled] at hnot
      simpa using hnot
    · obtain ⟨filled₀, hfilled₀, rfl⟩ :=
        Option.map_eq_some_iff.mp ((hgiven field).symm.trans hfilled)
      rw [ih hd₀ he₀ hfilled₀, hid₀, heq]
      cases (Desk.run { engine, supply } commands).given d.id e.id field command <;> rfl

theorem eq_of_map_isSome {α : Type} {given : Option (Option α)}
    (h : given.map Option.isSome = some false) : given = some none := by
  cases given with
  | none => cases h
  | some value =>
    cases value with
    | none => rfl
    | some a => cases h

/-- **Required fields are as the last edit left them.** Take any element of the archive after any
run from an empty archive, with any engine and with ids that are never given twice. A field that it
needs is empty exactly if, of the edits of it that were carried out, the last one that named the
field cleared it. So if no edit clears the place or the text of anything, every box has a place, and
every note has a place and a text. -/
theorem required_fields_as_last_given (engine : Engine Float) (supply : Supply)
    (hid : Function.Injective supply.idAt) (commands : List Command) :
    let start : Desk := { engine, supply }
    (∀ d ∈ (start.run commands).archive.diagrams, ∀ e ∈ d.elements, ∀ field,
      e.filled? field = some false ↔
        e.filled? field ≠ none ∧ lastGiven d.id e.id field start commands = some false) ∧
    ((∀ diagram x values, .update diagram x values ∈ commands →
        values.given .position ≠ some none ∧ values.given .text ≠ some none) →
      ∀ d ∈ (start.run commands).archive.diagrams, ∀ e ∈ d.elements, e.Complete) := by
  intro start
  have hexact : ∀ d ∈ (start.run commands).archive.diagrams, ∀ e ∈ d.elements, ∀ field,
      e.filled? field = some false ↔
        e.filled? field ≠ none ∧ lastGiven d.id e.id field start commands = some false := by
    intro d hd e he field
    cases hfilled : e.filled? field with
    | none => simp
    | some filled =>
      -- a field that an element has is filled as the last edit left it, and full before any
      have hlast := filled?_run hid hd he hfilled
      rw [hlast]
      cases lastGiven d.id e.id field start commands with
      | none => simp
      | some given => simp
  refine ⟨hexact, fun hkept d hd e he => Element.complete_iff.mpr fun field hlacks => ?_⟩
  obtain ⟨values, hmem, hgives⟩ := of_lastGiven ((hexact d hd e he field).mp hlacks).2
  obtain ⟨hposition, htext⟩ := hkept _ _ _ hmem
  cases field with
  | position => exact hposition (eq_of_map_isSome hgives)
  | text => exact htext (eq_of_map_isSome hgives)

/-- Commands that take the dog its place, and a note its place and its text. The pet loses its place
as well and gets it back. -/
def emptied : List Command :=
  shelter ++
    [.annotate "" ⟨0, 200⟩ "open daily",
      .update "" "i" { names := ["position"] },
      .update "" "ii" { names := ["position"] },
      .update "" "ii"
        { names := ["position"]
          value := fun
            | .position => some ⟨0, 100⟩
            | _ => none },
      .update "" "iiii" { names := ["text", "position"] }]

/-- The dog without its place. -/
def lostDog : Node Float :=
  { id := "i", kind := .classBox, position := none, text := some "Dog", members := some {} }

/-- The note without anything. -/
def blankNote : Note Float := { id := "iiii", text := none, position := none }

theorem mem_emptied : ∃ d ∈ (empty.run emptied).archive.diagrams,
    d.id = "" ∧ .node lostDog ∈ d.elements ∧ .note blankNote ∈ d.elements := by
  let pet : Node Float :=
    { id := "ii", kind := .interfaceBox, position := some ⟨0, 100⟩, text := some "Pet",
      members := some {} }
  let link : Arrow Float := { id := "iii", kind := .implementation, source := "i", target := "ii" }
  have hdiagrams : (empty.run emptied).archive.diagrams =
      [{ id := "", name := "Shelter", created := 0, updated := 10,
         elements := [.node lostDog, .node pet, .arrow link, .note blankNote] }] := rfl
  rw [hdiagrams]
  exact ⟨_, List.mem_singleton_self _, rfl, by simp, by simp⟩

theorem required_fields_as_last_given_emptied :
    Function.Injective Supply.tally.idAt ∧
      (∀ d ∈ (empty.run shelter).archive.diagrams, ∀ e ∈ d.elements, e.Complete) ∧
      lostDog.position = none ∧
      lastGiven "" "i" .position empty emptied = some false := by
  refine ⟨tally_injective, ?_, rfl, ?_⟩
  · refine (required_fields_as_last_given layeredEngine .tally tally_injective shelter).2 ?_
    intro diagram x values hmem
    exact absurd hmem (by simp [shelter])
  · obtain ⟨d, hd, hid, hdog, -⟩ := mem_emptied
    have hexact := (required_fields_as_last_given layeredEngine .tally tally_injective emptied).1
    exact hid ▸ ((hexact d hd (.node lostDog) hdog .position).mp rfl).2

/-- Edits can take the place of a box, and the place and the text of a note. -/
theorem required_fields_can_be_emptied :
    Function.Injective Supply.tally.idAt ∧
      ∃ d ∈ (empty.run emptied).archive.diagrams,
        (∃ n, .node n ∈ d.elements ∧ n.position = none) ∧
        ∃ t, .note t ∈ d.elements ∧ t.position = none ∧ t.text = none := by
  obtain ⟨d, hd, -, hdog, hnote⟩ := mem_emptied
  exact ⟨tally_injective, d, hd, ⟨lostDog, hdog, rfl⟩, blankNote, hnote, rfl, rfl⟩

end Desk

end ClassAtlas
