import ClassAtlas.Proofs.Editor.Invariant

/-!
# What an update comes to

An update of an element is refused for the first of five reasons, or it is carried out: it names
something that no edit may change; there is no such diagram; there is no such element; it gives a
kind that is not one of the element's family; or it names a field that elements of this type lack.

The last two are found while the element is being changed, the kind first and then one field after
the other, so the change to a new kind comes before the complaint about a field, which calls the
element by that kind. None of it is seen from outside: a refused update leaves the desk as it was,
and an update that is carried out has made all of its changes at once.
-/

namespace ClassAtlas

variable {K : Type}

/-! ## Fields -/

namespace UpdatableField

/-- The fields besides the kind, in the order in which an edit changes them. -/
def others : List UpdatableField := [.size, .text, .members, .position, .points]

theorem mem_others {field : UpdatableField} : field ∈ others ↔ field ≠ .kind := by
  cases field <;> decide

end UpdatableField

/-- The names of what an edit may change. -/
def NamedValues.updatable : List String :=
  ["kind", "size", "text", "properties", "position", "points"]

theorem NamedValues.unknown_eq (v : NamedValues K) :
    v.unknown = (v.names.filter (· ∉ updatable)).eraseDups := rfl

theorem NamedValues.unknown_eq_nil_iff {v : NamedValues K} :
    v.unknown = [] ↔ ∀ name ∈ v.names, name ∈ updatable := by
  rw [unknown_eq, List.eq_nil_iff_forall_not_mem]
  simp [List.mem_eraseDups]

namespace Element

/-- Whether elements of this type have a field. -/
def has : Element K → UpdatableField → Bool
  | .node _, field => field ≠ .points
  | .arrow _, field => field = .kind ∨ field = .points
  | .note _, field => field = .kind ∨ field = .text ∨ field = .position

/-- The words for the kinds that an edit may give to an element. A note keeps its kind. -/
def newKindWords : Element K → List String
  | .note _ => []
  | e => e.kindWords

end Element

namespace Changes

variable {c : Changes K} {e : Element K}

/-- Whether an edit gives a value for a field, be it nothing. -/
def names (c : Changes K) : UpdatableField → Bool
  | .kind => c.kind.isSome
  | .size => c.size.isSome
  | .text => c.text.isSome
  | .members => c.members.isSome
  | .position => c.position.isSome
  | .points => c.points.isSome

/-- Whether an edit names a field that an element lacks. -/
def lacks (c : Changes K) (e : Element K) (field : UpdatableField) : Bool :=
  c.names field && !e.has field

/-- The fields that an edit names and an element lacks. -/
def lacking (c : Changes K) (e : Element K) : List UpdatableField :=
  UpdatableField.others.filter (c.lacks e)

/-- An element with all changes of an edit made. Each field that is named gets the value that is
given for it, which may be nothing; only the members stay where nothing is given for them. -/
def made (c : Changes K) : Element K → Element K
  | .node n => .node
    { id := n.id
      kind := (c.newKind.map .ofWord).getD n.kind
      position := c.position.getD n.position
      size := c.size.getD n.size
      text := c.text.getD n.text
      members := c.members.join.or n.members }
  | .arrow a => .arrow
    { id := a.id
      kind := (c.newKind.map .ofWord).getD a.kind
      source := a.source
      target := a.target
      points := c.points.getD a.points }
  | .note t => .note
    { id := t.id
      text := c.text.getD t.text
      position := c.position.getD t.position
      kind := t.kind }

/-- What becomes of an element under an edit. -/
inductive Verdict (c : Changes K) (e : Element K) : Except Failure (Element K) → Prop
  /-- The new kind is not one of the element's family. -/
  | kind {word : String} (hword : c.newKind = some word) (hnot : word ∉ e.newKindWords) :
    Verdict c e (.error (.kindChange e.kindWord word))
  /-- The kind could be changed, but the element lacks a field. The complaint is about the first
  such field, and it calls the element by its new kind. -/
  | field {field : UpdatableField} {rest : List UpdatableField}
    (hkind : ∀ word ∈ c.newKind, word ∈ e.newKindWords) (hlacking : c.lacking e = field :: rest) :
    Verdict c e (.error (.fieldMissing (c.newKind.getD e.kindWord) field.name))
  /-- All changes are made. -/
  | done (hkind : ∀ word ∈ c.newKind, word ∈ e.newKindWords)
    (hfields : ∀ field, c.names field = true → e.has field = true) : Verdict c e (.ok (c.made e))

theorem lacking_eq_nil_iff :
    c.lacking e = [] ↔ ∀ field, c.names field = true → e.has field = true := by
  unfold lacking
  rw [List.filter_eq_nil_iff]
  constructor
  · intro h field hnames
    by_cases hkind : field = .kind
    · -- every element has a kind
      subst hkind
      cases e <;> rfl
    · simpa [lacks, hnames] using h field (UpdatableField.mem_others.mpr hkind)
  · intro h field _
    simpa [lacks] using h field

/-- An element of the new kind, if there is one and elements of this type may change it. -/
def withKind (c : Changes K) : Element K → Element K
  | .node n => .node { n with kind := (c.newKind.map .ofWord).getD n.kind }
  | .arrow a => .arrow { a with kind := (c.newKind.map .ofWord).getD a.kind }
  | .note t => .note t

end Changes

theorem NodeKind.isKnown_ofWord (word : String) :
    (NodeKind.ofWord word).isKnown = true ↔ word ∈ ["class", "interface"] := by
  unfold ofWord
  split_ifs <;> simp_all [isKnown]

theorem NodeKind.word_ofWord (word : String) : (NodeKind.ofWord word).word = word := by
  unfold ofWord
  split_ifs <;> simp_all [NodeKind.word]

theorem ArrowKind.isKnown_ofWord (word : String) :
    (ArrowKind.ofWord word).isKnown = true ↔
      word ∈ ["inheritance", "implementation", "dependency", "association"] := by
  unfold ofWord
  split_ifs <;> simp_all [isKnown]

theorem ArrowKind.word_ofWord (word : String) : (ArrowKind.ofWord word).word = word := by
  unfold ofWord
  split_ifs <;> simp_all [ArrowKind.word]

namespace Changes

variable {c : Changes K} {e : Element K}

theorem setKind_of_not_mem {word : String} (h : word ∉ e.newKindWords) :
    Element.setKind word e = .error (.kindChange e.kindWord word) := by
  cases e with
  | node n =>
    have hk : ¬ (n.kind.isKnown && (NodeKind.ofWord word).isKnown) = true := by
      rw [Bool.and_eq_true_iff, NodeKind.isKnown_ofWord]
      exact fun hboth => h hboth.2
    exact if_neg hk
  | arrow a => exact if_neg fun hk => h ((ArrowKind.isKnown_ofWord word).mp hk)
  | note t => rfl

theorem setIf_setKind (hk : e.isKnown = true) (hkind : ∀ word ∈ c.newKind, word ∈ e.newKindWords) :
    e.setIf c.newKind Element.setKind = .ok (c.withKind e) := by
  cases hword : c.newKind with
  | none => cases e <;> simp [withKind, hword, Element.setIf]
  | some word =>
    have hmem : word ∈ e.newKindWords := hkind word hword
    cases e with
    | node n =>
      -- the kind is checked against its family twice: the old one and the new one
      have hboth : (n.kind.isKnown && (NodeKind.ofWord word).isKnown) = true :=
        Bool.and_eq_true_iff.mpr ⟨hk, (NodeKind.isKnown_ofWord word).mpr hmem⟩
      simp only [withKind, hword]
      exact if_pos hboth
    | arrow a =>
      simp only [withKind, hword]
      exact if_pos ((ArrowKind.isKnown_ofWord word).mpr hmem)
    | note t => exact absurd hmem List.not_mem_nil

theorem kindWord_withKind (hkind : ∀ word ∈ c.newKind, word ∈ e.newKindWords) :
    (c.withKind e).kindWord = c.newKind.getD e.kindWord := by
  cases hword : c.newKind with
  | none => cases e <;> simp [withKind, hword, Element.kindWord]
  | some word =>
    cases e with
    | node n => simp [withKind, hword, Element.kindWord, NodeKind.word_ofWord]
    | arrow a => simp [withKind, hword, Element.kindWord, ArrowKind.word_ofWord]
    | note t => exact absurd (hkind word hword) List.not_mem_nil

/-! ## One field -/

/-- Changes a field if the edit names it. -/
def set (c : Changes K) : UpdatableField → Element K → Except Failure (Element K)
  | .kind => Element.setIf c.newKind Element.setKind
  | .size => Element.setIf c.size Element.setSize
  | .text => Element.setIf c.text Element.setText
  | .members => Element.setIf c.members Element.setMembers
  | .position => Element.setIf c.position Element.setPosition
  | .points => Element.setIf c.points Element.setPoints

/-- An element with what an edit gives for a field, if it has this field. -/
def put (c : Changes K) : UpdatableField → Element K → Element K
  | .size, .node n => .node { n with size := c.size.getD n.size }
  | .text, .node n => .node { n with text := c.text.getD n.text }
  | .members, .node n => .node { n with members := c.members.join.or n.members }
  | .position, .node n => .node { n with position := c.position.getD n.position }
  | .points, .arrow a => .arrow { a with points := c.points.getD a.points }
  | .text, .note t => .note { t with text := c.text.getD t.text }
  | .position, .note t => .note { t with position := c.position.getD t.position }
  | _, e => e

@[simp] theorem lacks_put (c : Changes K) (field : UpdatableField) (e : Element K) :
    c.lacks (c.put field e) = c.lacks e := by
  cases field <;> cases e <;> rfl

@[simp] theorem kindWord_put (c : Changes K) (field : UpdatableField) (e : Element K) :
    (c.put field e).kindWord = e.kindWord := by
  cases field <;> cases e <;> rfl

/-- A field other than the kind is changed unless the element lacks it. -/
theorem set_eq (c : Changes K) {field : UpdatableField} (hfield : field ≠ .kind) (e : Element K) :
    c.set field e =
      if c.lacks e field then .error (.fieldMissing e.kindWord field.name)
      else .ok (c.put field e) := by
  -- with the value and the type of the element known, both sides compute
  obtain ⟨_, size, text, members, position, points⟩ := c
  cases field with
  | kind => exact absurd rfl hfield
  | size => cases size <;> cases e <;> rfl
  | text => cases text <;> cases e <;> rfl
  | members => cases members <;> cases e <;> rfl
  | position => cases position <;> cases e <;> rfl
  | points => cases points <;> cases e <;> rfl

/-! ## All fields -/

theorem apply_eq (c : Changes K) (e : Element K) :
    c.apply e = e.setIf c.newKind Element.setKind >>= fun e =>
      UpdatableField.others.foldlM (fun e field => c.set field e) e := by
  unfold apply UpdatableField.others
  simp only [List.foldlM_cons, List.foldlM_nil, bind_pure]
  rfl

/-- Changes to some fields, one after the other, fail at the first field that the element lacks. -/
theorem foldlM_set (c : Changes K) {fields : List UpdatableField}
    (hfields : ∀ field ∈ fields, field ≠ .kind) (e : Element K) :
    fields.foldlM (fun e field => c.set field e) e =
      match fields.filter (c.lacks e) with
      | field :: _ => .error (.fieldMissing e.kindWord field.name)
      | [] => .ok (fields.foldl (fun e field => c.put field e) e) := by
  induction fields generalizing e with
  | nil => rfl
  | cons field fields ih =>
    obtain ⟨hfield, hfields⟩ := List.forall_mem_cons.mp hfields
    rw [List.foldlM_cons, set_eq c hfield]
    by_cases hlacks : c.lacks e field = true
    · rw [if_pos hlacks, List.filter_cons_of_pos hlacks]
      rfl
    · rw [if_neg hlacks, List.filter_cons_of_neg hlacks, List.foldl_cons]
      show fields.foldlM _ (c.put field e) = _
      rw [ih hfields, lacks_put, kindWord_put]

theorem lacks_withKind (c : Changes K) (e : Element K) : c.lacks (c.withKind e) = c.lacks e := by
  cases e <;> rfl

theorem foldl_put_withKind (c : Changes K) (e : Element K) :
    UpdatableField.others.foldl (fun e field => c.put field e) (c.withKind e) = c.made e := by
  cases e <;> rfl

/-- What becomes of an element whose kind may be changed as the edit wants. -/
theorem apply_of_kind (hk : e.isKnown = true)
    (hkind : ∀ word ∈ c.newKind, word ∈ e.newKindWords) :
    c.apply e = match c.lacking e with
      | field :: _ => .error (.fieldMissing (c.newKind.getD e.kindWord) field.name)
      | [] => .ok (c.made e) := by
  rw [apply_eq, setIf_setKind hk hkind]
  show UpdatableField.others.foldlM (fun e field => c.set field e) (c.withKind e) = _
  rw [foldlM_set c fun field => UpdatableField.mem_others.mp, lacks_withKind,
    kindWord_withKind hkind, foldl_put_withKind]
  rfl

/-- **The verdict on an element of a known kind is what the edit gives.** -/
theorem Verdict.apply_eq {result : Except Failure (Element K)} (h : c.Verdict e result)
    (hk : e.isKnown = true) : c.apply e = result := by
  cases h with
  | kind hword hnot =>
    rw [Changes.apply_eq, hword]
    show (Element.setKind _ e >>= fun _ => _) = _
    rw [setKind_of_not_mem hnot]
    rfl
  | field hkind hlacking => rw [apply_of_kind hk hkind, hlacking]
  | done hkind hfields => rw [apply_of_kind hk hkind, lacking_eq_nil_iff.mpr hfields]

end Changes

/-! ## On a desk -/

namespace Desk

open NamedValues in
/-- What an update of an element comes to, and the desk after it. -/
inductive Updates (desk : Desk) (diagram element : String) (values : NamedValues Float) :
    Except Failure Answer × Desk → Prop
  /-- The update names something that no edit may change. -/
  | unknown {name : String} (hname : name ∈ values.names) (hnot : name ∉ updatable) :
    Updates desk diagram element values
      (.error (.fixedFields (values.names.filter (· ∉ updatable)).eraseDups), desk)
  /-- No diagram has the id. -/
  | noDiagram (hknown : ∀ name ∈ values.names, name ∈ updatable)
    (hnone : ∀ d ∈ desk.archive.diagrams, d.id ≠ diagram) :
    Updates desk diagram element values (.error (.noDiagram diagram), desk)
  /-- No element of the diagram has the id. -/
  | noElement {d : Diagram Float} (hknown : ∀ name ∈ values.names, name ∈ updatable)
    (hd : d ∈ desk.archive.diagrams) (hid : d.id = diagram)
    (hnone : ∀ e ∈ d.elements, e.id ≠ element) :
    Updates desk diagram element values (.error (.noElement diagram element), desk)
  /-- The changes cannot be made. -/
  | refused {d : Diagram Float} {e : Element Float} {failure : Failure}
    (hknown : ∀ name ∈ values.names, name ∈ updatable) (hd : d ∈ desk.archive.diagrams)
    (hid : d.id = diagram) (he : e ∈ d.elements) (heid : e.id = element)
    (hverdict : values.changes.Verdict e (.error failure)) :
    Updates desk diagram element values (.error failure, desk)
  /-- The new element stands in the place of the old one, and the diagram is saved. -/
  | done {front back : List (String × Diagram Float)} {d : Diagram Float}
    {before after : List (Element Float)} {old new : Element Float}
    (hknown : ∀ name ∈ values.names, name ∈ updatable)
    (hentries : desk.archive.entries = front ++ (diagram, d) :: back) (hid : d.id = diagram)
    (helements : d.elements = before ++ old :: after) (heid : old.id = element)
    (hverdict : values.changes.Verdict old (.ok new)) :
    Updates desk diagram element values (.ok (.element new),
      { desk with
        archive.entries := front ++
          (diagram, { d with elements := before ++ new :: after, updated := desk.supply.now }) ::
            back
        supply := desk.supply.afterTime })

variable {desk : Desk} {diagram element : String} {values : NamedValues Float}
  {outcome : Except Failure Answer × Desk}

/-- A diagram that is saved with other elements stays in its place. -/
theorem Sound.saved_eq (h : desk.Sound) {front back : List (String × Diagram Float)}
    {d : Diagram Float} (hentries : desk.archive.entries = front ++ (d.id, d) :: back)
    (new : List (Element Float)) :
    desk.saved { d with elements := new } =
      { desk with
        archive.entries := front ++
          (d.id, { d with elements := new, updated := desk.supply.now }) :: back
        supply := desk.supply.afterTime } := by
  let saved : Diagram Float := { d with elements := new, updated := desk.supply.now }
  have hput : (desk.archive.put d.id saved).entries = front ++ (d.id, saved) :: back :=
    Archive.entries_put_old h.nodup_keys hentries saved
  exact congrArg (Desk.mk desk.engine ⟨·⟩ desk.supply.afterTime) hput

theorem Sound.find?_diagram (h : desk.Sound) {d : Diagram Float} (hd : d ∈ desk.archive.diagrams) :
    desk.archive.find? d.id = some d :=
  h.keyed.find?_of_mem (Archive.nodup_diagramIds h.ids) hd

theorem Sound.find?_element (h : desk.Sound) {d : Diagram Float} (hd : d ∈ desk.archive.diagrams)
    {e : Element Float} (he : e ∈ d.elements) : d.find? e.id = some e :=
  find?_key_of_mem (h.nodup_ids hd) he

/-- On a sound desk an id names one diagram and one element, so the lookups find these. -/
theorem Sound.step_update_of_mem (h : desk.Sound) {d : Diagram Float} {e : Element Float}
    (hd : d ∈ desk.archive.diagrams) (he : e ∈ d.elements)
    (hknown : ∀ name ∈ values.names, name ∈ NamedValues.updatable) :
    desk.step (.update d.id e.id values) =
      match values.changes.apply e with
      | .error failure => (.error failure, desk)
      | .ok new => (.ok (.element new), desk.saved (d.modify e.id fun _ => new)) := by
  have hstep : desk.step (.update d.id e.id values) = _ :=
    step_update (NamedValues.unknown_eq_nil_iff.mpr hknown)
  rw [h.find?_diagram hd] at hstep
  dsimp only at hstep
  rw [h.find?_element hd he] at hstep
  exact hstep

/-- An outcome is what happens. -/
theorem Updates.step_eq (hu : desk.Updates diagram element values outcome) (h : desk.Sound) :
    desk.step (.update diagram element values) = outcome := by
  cases hu with
  | unknown hname hnot =>
    refine step_update_of_unknown fun hnil => hnot ?_
    exact NamedValues.unknown_eq_nil_iff.mp hnil _ hname
  | noDiagram hknown hnone =>
    have hfind : desk.archive.find? diagram = none := by
      rw [Archive.find?_eq_none_iff, h.keyed.keys_eq]
      simpa using hnone
    rw [step_update (NamedValues.unknown_eq_nil_iff.mpr hknown), hfind]
  | noElement hknown hd hid hnone =>
    -- as far as the diagram, which has no such element
    subst hid
    rename_i d
    have hfind : d.find? element = none := by
      unfold Diagram.find?
      rw [List.find?_eq_none]
      simpa using hnone
    rw [step_update (NamedValues.unknown_eq_nil_iff.mpr hknown), h.find?_diagram hd]
    dsimp only
    rw [hfind]
  | refused hknown hd hid he heid hverdict =>
    subst hid heid
    rw [h.step_update_of_mem hd he hknown, hverdict.apply_eq (h.known _ hd _ he)]
  | done hknown hentries hid helements heid hverdict =>
    subst hid heid
    -- the ids tell which entry and which element is exchanged
    rename_i front back d before after old new
    have hd : d ∈ desk.archive.diagrams := by
      refine List.mem_map.mpr ⟨(d.id, d), ?_, rfl⟩
      rw [hentries]
      exact List.mem_append_right _ (List.mem_cons_self ..)
    have he : old ∈ d.elements := helements ▸ List.mem_append_right _ (List.mem_cons_self ..)
    rw [h.step_update_of_mem hd he hknown, hverdict.apply_eq (h.known _ hd _ he)]
    dsimp only
    rw [h.modify_eq hd helements, h.saved_eq hentries]

end Desk

end ClassAtlas
