import ClassAtlas.Layout.Layered
import ClassAtlas.Proofs.Editor.Commands

/-!
# Ids stay apart

Every desk that is reached from an empty archive is sound: its diagrams are kept under their own
ids, these and the ids of the elements all differ, and they come from the supply. So the check for
an id that is in use never fails, and a command that is refused has saved nothing. It has taken
nothing either, unless it read a text and the engine could not draw what it read.
-/

namespace ClassAtlas

namespace Desk

variable {desk desk' : Desk} {command : Command} {d : Diagram Float} {id : String}
  {old new : List (Element Float)} {n : Nat}

theorem sound_empty {engine : Engine Float} {supply : Supply}
    (hid : Function.Injective supply.idAt) : Sound { engine, supply } where
  injective := hid
  taken := by intro id hmem; exact absurd hmem List.not_mem_nil
  keyed := Archive.keyed_empty
  ids := List.nodup_nil
  known := by intro d hd; exact absurd hd List.not_mem_nil

/-! ## Idling -/

theorem sound_of_idles (h : desk.Sound) (hi : desk.Idles desk') : desk'.Sound := by
  obtain ⟨harchive, ids, times, hsupply⟩ := hi
  refine ⟨?_, ?_, harchive ▸ h.keyed, harchive ▸ h.ids, harchive ▸ h.known⟩
  · rw [hsupply]
    exact h.injective
  · rw [harchive, hsupply]
    intro id hmem
    exact (h.taken id hmem).afterIds ids

/-! ## Filing -/

theorem sound_of_files (h : desk.Sound) (hf : desk.Files desk' d) : desk'.Sound := by
  have hidAt : desk'.supply.idAt = desk.supply.idAt := by rw [hf.supply]; rfl
  have hids : desk'.archive.ids =
      desk.archive.ids ++ desk.supply.nextIds (d.elements.length + 1) := by
    unfold Archive.ids
    rw [hf.diagrams, List.flatMap_append, List.flatMap_singleton, hf.allIds]
  refine ⟨hidAt ▸ h.injective, ?_, ?_, ?_, ?_⟩
  · intro id hmem
    rw [hf.supply]
    rw [hids] at hmem
    rcases List.mem_append.mp hmem with hmem | hmem
    · exact (h.taken id hmem).afterIds _
    · exact Supply.taken_of_mem_nextIds hmem
  · intro entry hentry
    rcases List.mem_append.mp (hf.entries ▸ hentry) with hold | hnew
    · exact h.keyed entry hold
    · rw [List.mem_singleton.mp hnew]
  · -- next ids have not been taken, so no diagram has one of them
    rw [hids, List.nodup_append]
    refine ⟨h.ids, Supply.nodup_nextIds h.injective _, ?_⟩
    rintro x hx y hy rfl
    exact h.not_mem_nextIds hy hx
  · intro x hx e he
    rw [hf.diagrams] at hx
    rcases List.mem_append.mp hx with hx | hx
    · exact h.known x hx e he
    · obtain rfl := List.mem_singleton.mp hx
      exact (hf.closed e he).1

/-! ## Revising -/

/-- The ids of a diagram are apart from the next ones. -/
theorem Sound.nodup_append_nextIds (h : desk.Sound) (hd : d ∈ desk.archive.diagrams) (n : Nat) :
    (d.allIds ++ desk.supply.nextIds n).Nodup := by
  rw [List.nodup_append]
  refine ⟨Archive.nodup_allIds h.ids hd, Supply.nodup_nextIds h.injective n, ?_⟩
  rintro x hx y hy rfl
  exact h.not_mem_nextIds hy (Archive.mem_ids.mpr ⟨d, hd, hx⟩)

/-- Revising leaves the keys. -/
theorem Revises.keyed (hr : desk.Revises desk' id old new) (h : desk.archive.Keyed) :
    desk'.archive.Keyed := by
  obtain ⟨front, d, back, hsplit, hid, -, hsplit'⟩ := hr
  intro entry hentry
  rcases mem_exchange (hsplit' ▸ hentry) with rfl | hold
  · exact hid
  · exact h entry (hsplit ▸ hold)

theorem sound_of_revision (h : desk.Sound) (hr : desk.Revision command desk' id old new n) :
    desk'.Sound := by
  have hidAt : desk'.supply.idAt = desk.supply.idAt := by rw [hr.supply]; rfl
  obtain ⟨front, d, back, hsplit, -, rfl, hsplit'⟩ := hr.revises.diagrams
  have hd : d ∈ desk.archive.diagrams := hsplit ▸ List.mem_append_right _ (List.mem_cons_self ..)
  have hids := Archive.ids_append_cons hsplit
  have hids' := Archive.ids_append_cons hsplit'
  -- the ids of the revised diagram are old ones of it and next ones of the supply
  have hsub : (Diagram.allIds { d with elements := new, updated := desk.supply.now }).Sublist
      (d.allIds ++ desk.supply.nextIds n) := hr.ids.cons_cons d.id
  have hfrom : ∀ x ∈ Diagram.allIds { d with elements := new, updated := desk.supply.now },
      x ∈ d.allIds ∨ x ∈ desk.supply.nextIds n := fun x hx => List.mem_append.mp (hsub.subset hx)
  refine ⟨hidAt ▸ h.injective, ?_, hr.revises.keyed h.keyed, ?_, ?_⟩
  · intro x hx
    rw [hr.supply]
    show (desk.supply.afterIds n).Taken x
    obtain ⟨d', hd', hmem⟩ := Archive.mem_ids.mp hx
    rcases mem_exchange (hsplit' ▸ hd') with rfl | hold
    · rcases hfrom x hmem with hmem | hnext
      · exact (h.taken x (Archive.mem_ids.mpr ⟨d, hd, hmem⟩)).afterIds n
      · exact Supply.taken_of_mem_nextIds hnext
    · exact (h.taken x (Archive.mem_ids.mpr ⟨d', hsplit ▸ hold, hmem⟩)).afterIds n
  · rw [hids']
    refine nodup_replace (hids ▸ h.ids) (hsub.nodup (h.nodup_append_nextIds hd n)) ?_
    intro x hx
    rcases hfrom x hx with hx | hx
    · exact .inl hx
    · exact .inr (hids ▸ h.not_mem_nextIds hx)
  · intro x hx e he
    rw [hsplit'] at hx
    rcases mem_exchange hx with rfl | hold
    · rcases hr.elements e he with ⟨e₀, he₀, hreplaces⟩ | ⟨_, hk, _⟩
      · exact hreplaces.isKnown (h.known d hd e₀ he₀)
      · exact hk
    · exact h.known x (hsplit ▸ hold) e he

/-! ## Runs -/

/-- A command leaves the archive as it is, files a diagram or revises one. -/
theorem Sound.step_cases (h : desk.Sound) (command : Command) :
    desk.Idles (desk.step command).2 ∨ (∃ d, desk.Files (desk.step command).2 d) ∨
      ∃ id old new n, desk.Revision command (desk.step command).2 id old new n := by
  rcases h.obeys command with ⟨failure, desk', hstep, hrefuses⟩ | ⟨answer, desk', hstep, -, heffect⟩
  · rw [hstep]
    exact .inl hrefuses.idles
  · rw [hstep]
    rcases heffect.cases with ⟨_, rfl | hfiles⟩ | hrevision
    · exact .inl (.refl _)
    · exact .inr (.inl hfiles)
    · exact .inr (.inr hrevision)

/-- **Soundness is preserved by every command.** -/
theorem sound_step (h : desk.Sound) (command : Command) : (desk.step command).2.Sound := by
  rcases h.step_cases command with hidles | ⟨d, hfiles⟩ | ⟨id, old, new, n, hrevision⟩
  · exact sound_of_idles h hidles
  · exact sound_of_files h hfiles
  · exact sound_of_revision h hrevision

/-- The engine is never exchanged. -/
theorem engine_step (h : desk.Sound) (command : Command) :
    (desk.step command).2.engine = desk.engine := by
  rcases h.obeys command with ⟨failure, desk', hstep, hrefuses⟩ | ⟨answer, desk', hstep, hengine, -⟩
  · rw [hstep]
    cases hrefuses <;> rfl
  · rw [hstep]
    exact hengine

theorem run_append (desk : Desk) (commands more : List Command) :
    desk.run (commands ++ more) = (desk.run commands).run more := List.foldl_append

theorem sound_run (h : desk.Sound) (commands : List Command) : (desk.run commands).Sound := by
  induction commands generalizing desk with
  | nil => exact h
  | cons command commands ih => exact ih (sound_step h command)

theorem engine_run (h : desk.Sound) (commands : List Command) :
    (desk.run commands).engine = desk.engine := by
  induction commands generalizing desk with
  | nil => rfl
  | cons command commands ih => exact (ih (sound_step h command)).trans (engine_step h command)

theorem Sound.step_error (h : desk.Sound) {failure : Failure}
    (hfailure : (desk.step command).1 = .error failure) :
    desk.Refuses command failure (desk.step command).2 := by
  rcases h.obeys command with ⟨failure', desk', hstep, hrefuses⟩ | ⟨answer, desk', hstep, _⟩
  · rw [hstep] at hfailure ⊢
    exact Except.error.inj hfailure ▸ hrefuses
  · rw [hstep] at hfailure
    exact absurd hfailure (by simp)

theorem Sound.step_ok (h : desk.Sound) {answer : Answer}
    (hanswer : (desk.step command).1 = .ok answer) :
    command.Effect desk answer (desk.step command).2 := by
  rcases h.obeys command with ⟨failure, desk', hstep, _⟩ | ⟨answer', desk', hstep, -, heffect⟩
  · rw [hstep] at hanswer
    exact absurd hanswer (by simp)
  · rw [hstep] at hanswer ⊢
    exact Except.ok.inj hanswer ▸ heffect

/-! ## What every run keeps -/

/-- What is put together from a text could also be added element by element, each after a look for
its id. So could what an engine makes of it. -/
theorem Sound.addable_read (h : desk.Sound) (engine : Engine Float) (dialect : Dialect)
    (settings : ReadSettings) (text : String) :
    (dialect.assemble settings desk.supply text).diagram.Addable ∧
      ∀ a, dialect.read engine settings desk.supply text = .ok a → a.diagram.Addable := by
  have hgrows := dialect.grows_assemble settings desk.supply text
  have addable {a : Assembly} (ha : (Assembly.start settings desk.supply).Grows a) :
      a.diagram.Addable :=
    Diagram.addable_of_nodup (ha.taken.1 ▸ Supply.nodup_nextIds h.injective _)
  refine ⟨addable hgrows, fun a ha => addable (hgrows.trans ?_)⟩
  exact ((dialect.gives_moved engine settings desk.supply text).of_eq_ok ha).grows

/-- **Ids stay apart.** After any run from an empty archive, with any engine and with ids that are
never given twice: every diagram is kept under its own id, and it is found there; all diagrams and
all elements of all diagrams have different ids; every element is of a kind for its type; and no
command can ever meet an id that is in use. A reading adds elements without looking for their ids,
but it would never find one. -/
theorem ids_stay_apart (engine : Engine Float) (supply : Supply)
    (hid : Function.Injective supply.idAt) (commands : List Command) :
    let desk := Desk.run { engine, supply } commands
    (∀ entry ∈ desk.archive.entries, entry.2.id = entry.1) ∧
      (∀ d ∈ desk.archive.diagrams, desk.archive.find? d.id = some d) ∧
      desk.archive.ids.Nodup ∧
      (∀ d ∈ desk.archive.diagrams, ∀ e ∈ d.elements,
        e.isKnown = true ∧ e.kindWord ∈ e.kindWords) ∧
      (∀ command diagram element,
        (desk.step command).1 ≠ .error (.duplicateElement diagram element)) ∧
      ∀ (dialect : Dialect) settings text,
        (dialect.assemble settings desk.supply text).diagram.Addable ∧
        ∀ a, dialect.read engine settings desk.supply text = .ok a → a.diagram.Addable := by
  intro desk
  -- the invariant of every run has all of it but the refusal, which is a matter of one step
  have h : desk.Sound := sound_run (sound_empty hid) commands
  refine ⟨h.keyed, ?_, h.ids, ?_, ?_, h.addable_read engine⟩
  · intro d hd
    exact h.keyed.find?_of_mem (Archive.nodup_diagramIds h.ids) hd
  · intro d hd e he
    exact ⟨h.known d hd e he, Element.kindWord_mem (h.known d hd e he)⟩
  · intro command diagram element hstep
    exact absurd ((h.step_error hstep).eq_of_drawn nofun).2 Bool.false_ne_true

/-- A desk with an empty archive, an engine that draws layers, and ids that count. -/
def empty : Desk := { engine := layeredEngine, supply := .tally }

/-- Commands that draw a dog, a pet, and that the one implements the other. -/
def shelter : List Command :=
  [.create "Shelter",
    .addNode "" "class" ⟨0, 0⟩ none (some "Dog"),
    .addNode "" "interface" ⟨0, 100⟩ none (some "Pet"),
    .connect "" "i" "ii" "implementation"]

theorem ids_stay_apart_shelter :
    let desk := empty.run shelter
    Function.Injective Supply.tally.idAt ∧
      desk.archive.entries.map (·.1) = [""] ∧ desk.archive.ids = ["", "i", "ii", "iii"] ∧
      desk.archive.ids.Nodup ∧ ∀ entry ∈ desk.archive.entries, entry.2.id = entry.1 := by
  intro desk
  obtain ⟨hkeyed, -, hids, -⟩ := ids_stay_apart layeredEngine .tally tally_injective shelter
  exact ⟨tally_injective, rfl, rfl, hids, hkeyed⟩

/-- **A refusal changes nothing.** If a command is refused, at any time of a run, the archive is as
it was. The ids that are left and the clock are as they were too, unless the engine has failed.
Refusals name an unknown diagram, element or dialect, or a kind or field that an element cannot
have; none is about options or ids in use. An engine can fail only while a text is read in layers.
-/
theorem refusal_changes_nothing (engine : Engine Float) (supply : Supply)
    (hid : Function.Injective supply.idAt) (commands : List Command) (command : Command)
    (failure : Failure)
    (hfailure : ((Desk.run { engine, supply } commands).step command).1 = .error failure) :
    let desk := Desk.run { engine, supply } commands
    (desk.step command).2.archive = desk.archive ∧
      ((∀ diagram cause, failure ≠ .layoutFailed diagram cause) →
        (desk.step command).2 = desk ∧ failure.isOfEditor = true) ∧
      ∀ diagram cause, failure = .layoutFailed diagram cause →
        ∃ text dialect settings chart, command = .readText text dialect settings ∧
          settings.arrangement = .layered ∧
          engine.drawing settings.layout chart = .error cause := by
  intro desk
  have h : desk.Sound := sound_run (sound_empty hid) commands
  have hengine : desk.engine = engine := engine_run (sound_empty hid) commands
  have hrefuses : desk.Refuses command failure (desk.step command).2 := h.step_error hfailure
  refine ⟨hrefuses.idles.archive, hrefuses.eq_of_drawn, ?_⟩
  rintro diagram cause rfl
  exact hengine ▸ hrefuses.of_layoutFailed

/-- The kind of the dog could be changed, but a box has no line. -/
theorem refusal_changes_nothing_shelter :
    let desk := empty.run shelter
    let values : NamedValues Float :=
      { names := ["kind", "points"]
        value := fun
          | .kind => some "interface"
          | .points => some []
          | _ => none }
    (desk.step (.update "" "i" values)).1 = .error (.fieldMissing "interface" "points") ∧
      (desk.step (.update "" "i" values)).2 = desk := by
  intro desk values
  have hrefused : (desk.step (.update "" "i" values)).1 =
      .error (.fieldMissing "interface" "points") := rfl
  obtain ⟨-, hsame, -⟩ :=
    refusal_changes_nothing layeredEngine .tally tally_injective shelter _ _ hrefused
  exact ⟨hrefused, (hsame nofun).1⟩

end Desk

end ClassAtlas
