import ClassAtlas.Proofs.Editor.Invariant

/-!
# What commands leave alone

A command that is carried out touches at most the diagram that it names. The other diagrams are as
they were, all keep their order, and a new diagram comes behind them. If the clock never shows a
time twice and never goes back, a diagram was made before it was last saved, and every change makes
its stamp later.
-/

namespace ClassAtlas

namespace Desk

variable {desk desk' : Desk} {command : Command} {answer : Answer} {d : Diagram Float} {id : String}
  {old new : List (Element Float)} {n : Nat}

/-! ## The clock -/

/-- The clock goes forward, and every stamp lies between the time at which the diagram was made and
the time that the clock shows next. -/
structure Timely (desk : Desk) : Prop where
  clock : desk.supply.GoesForward
  stamps : ∀ d ∈ desk.archive.diagrams, d.created < d.updated ∧ d.updated < desk.supply.now

theorem timely_empty {engine : Engine Float} {supply : Supply} (hclock : supply.GoesForward) :
    Timely { engine, supply } where
  clock := hclock
  stamps := by intro d hd; exact absurd hd List.not_mem_nil

theorem timely_of_idles (h : desk.Timely) (hi : desk.Idles desk') : desk'.Timely := by
  obtain ⟨harchive, ids, times, hsupply⟩ := hi
  refine ⟨?_, ?_⟩
  · rw [hsupply]
    exact h.clock
  · -- the clock does not go back while it is read in vain
    have hlater : desk.supply.now ≤ desk'.supply.now := by
      rw [hsupply]
      rcases Nat.eq_zero_or_pos times with rfl | hpos
      · exact Int.le_refl _
      · exact Int.le_of_lt (h.clock (Nat.lt_add_of_pos_right hpos))
    rw [harchive]
    intro d hd
    obtain ⟨hcreated, hupdated⟩ := h.stamps d hd
    exact ⟨hcreated, by omega⟩

theorem timely_of_files (h : desk.Timely) (hf : desk.Files desk' d) : desk'.Timely := by
  have hclock : desk'.supply.GoesForward := by rw [hf.supply]; exact h.clock
  have hnow : desk'.supply.now = desk.supply.timeAt (desk.supply.timesRead + 3) := by
    rw [hf.supply]
    rfl
  refine ⟨hclock, ?_⟩
  intro x hx
  -- making a diagram reads the clock twice and saving it once more
  rw [hf.diagrams] at hx
  rw [hnow]
  rcases List.mem_append.mp hx with hx | hx
  · obtain ⟨hcreated, hupdated⟩ := h.stamps x hx
    have hlater : desk.supply.now < desk.supply.timeAt (desk.supply.timesRead + 3) :=
      h.clock (by omega)
    exact ⟨hcreated, by omega⟩
  · obtain rfl := List.mem_singleton.mp hx
    have hcreated : x.created = desk.supply.timeAt desk.supply.timesRead := hf.created
    have hupdated : x.updated = desk.supply.timeAt (desk.supply.timesRead + 2) := hf.updated
    rw [hcreated, hupdated]
    exact ⟨h.clock (by omega), h.clock (by omega)⟩

theorem timely_of_revision (h : desk.Timely) (hr : desk.Revision command desk' id old new n) :
    desk'.Timely := by
  have hclock : desk'.supply.GoesForward := by rw [hr.supply]; exact h.clock
  have hlater : desk.supply.now < desk'.supply.now := by
    rw [hr.supply]
    exact h.clock (Nat.lt_succ_self _)
  obtain ⟨front, d, back, hsplit, -, -, hsplit'⟩ := hr.revises.diagrams
  have hd : d ∈ desk.archive.diagrams := hsplit ▸ List.mem_append_right _ (List.mem_cons_self ..)
  refine ⟨hclock, ?_⟩
  intro x hx
  rw [hsplit'] at hx
  rcases mem_exchange hx with rfl | hold
  · -- the new stamp is the time, and it is later than the old one
    obtain ⟨hcreated, hupdated⟩ := h.stamps d hd
    have hnow : d.created < desk.supply.now := by omega
    exact ⟨hnow, hlater⟩
  · obtain ⟨hcreated, hupdated⟩ := h.stamps x (hsplit ▸ hold)
    exact ⟨hcreated, by omega⟩

theorem timely_step (hs : desk.Sound) (h : desk.Timely) (command : Command) :
    (desk.step command).2.Timely := by
  rcases hs.step_cases command with hidles | ⟨d, hfiles⟩ | ⟨id, old, new, n, hrevision⟩
  · exact timely_of_idles h hidles
  · exact timely_of_files h hfiles
  · exact timely_of_revision h hrevision

theorem timely_run (hs : desk.Sound) (h : desk.Timely) (commands : List Command) :
    (desk.run commands).Timely := by
  induction commands generalizing desk with
  | nil => exact h
  | cons command commands ih => exact ih (sound_step hs command) (timely_step hs h command)

/-! ## The frame -/

/-- What a command that is carried out leaves alone, and how it stamps. -/
structure Frame (desk : Desk) (command : Command) (desk' : Desk) : Prop where
  /-- Diagrams stay in their order, and new ones come behind. -/
  order : desk.archive.diagrams.map Diagram.id <+: desk'.archive.diagrams.map Diagram.id
  /-- What a command does not name stays as it is. -/
  others : ∀ d ∈ desk.archive.diagrams, command.target? ≠ some d.id → d ∈ desk'.archive.diagrams
  /-- The diagram that it names keeps its name and the time at which it was made, and its stamp
  becomes later. -/
  target : ∀ d ∈ desk.archive.diagrams, command.target? = some d.id →
    ∃ d' ∈ desk'.archive.diagrams,
      d'.id = d.id ∧ d'.name = d.name ∧ d'.created = d.created ∧ d.updated < d'.updated
  /-- Every diagram was made before it was last saved. -/
  stamps : ∀ d ∈ desk'.archive.diagrams, d.created < d.updated

theorem frame_of_revision (hs : desk.Sound) (h : desk.Timely) (hafter : desk'.Timely)
    (hr : desk.Revision command desk' id old new n) : desk.Frame command desk' := by
  obtain ⟨front, d, back, hsplit, rfl, -, hsplit'⟩ := hr.revises.diagrams
  have hd : d ∈ desk.archive.diagrams := hsplit ▸ List.mem_append_right _ (List.mem_cons_self ..)
  refine ⟨?_, ?_, ?_, fun x hx => (hafter.stamps x hx).1⟩
  · rw [hsplit, hsplit', List.map_append, List.map_append]
    exact List.prefix_rfl
  · intro x hx hne
    rw [hr.target] at hne
    rw [hsplit] at hx
    rcases mem_exchange hx with rfl | hstays
    · exact absurd rfl hne
    · exact hsplit' ▸ hstays
  · intro x hx heq
    rw [hr.target] at heq
    -- ids differ, so this is the diagram that is revised
    have hnodup := Archive.nodup_diagramIds hs.ids
    obtain rfl : d = x := List.inj_on_of_nodup_map hnodup hd hx (Option.some.inj heq)
    refine ⟨{ d with elements := new, updated := desk.supply.now }, ?_, rfl, rfl, rfl, ?_⟩
    · rw [hsplit']
      exact List.mem_append_right _ (List.mem_cons_self ..)
    · exact (h.stamps d hd).2

theorem frame_of_effect (hs : desk.Sound) (h : desk.Timely) (hafter : desk'.Timely)
    (heffect : command.Effect desk answer desk') : desk.Frame command desk' := by
  rcases heffect.cases with ⟨htarget, hsame | ⟨d, hfiles⟩⟩ | ⟨id, old, new, n, hrevision⟩
  · subst hsame
    refine ⟨List.prefix_rfl, fun x hx _ => hx, ?_, fun x hx => (h.stamps x hx).1⟩
    intro x _ heq
    exact absurd (htarget.symm.trans heq) (by simp)
  · refine ⟨?_, ?_, ?_, fun x hx => (hafter.stamps x hx).1⟩
    · -- the new diagram comes last
      rw [hfiles.diagrams, List.map_append]
      exact List.prefix_append _ _
    · intro x hx _
      rw [hfiles.diagrams]
      exact List.mem_append_left _ hx
    · intro x _ heq
      exact absurd (htarget.symm.trans heq) (by simp)
  · exact frame_of_revision hs h hafter hrevision

/-- **What is carried out stays within its frame.** At any time of a run, with any engine, ids that
are never given twice and a clock that goes forward, a command that is carried out has its effect:
making and reading put one new diagram behind the others; adding, connecting and annotating put one
element behind the others of a diagram; removing takes out one element, or none if there is none
with the id; a change leaves the id and the ends of its element; looking and writing change nothing.
Besides, the other diagrams stay as they are and where they are, a diagram keeps its id, its name
and the time at which it was made, and its stamp is later than that and later after every change. -/
theorem carried_out_within_frame (engine : Engine Float) (supply : Supply)
    (hid : Function.Injective supply.idAt) (hclock : supply.GoesForward) (commands : List Command)
    (command : Command) (answer : Answer)
    (hanswer : ((Desk.run { engine, supply } commands).step command).1 = .ok answer) :
    let desk := Desk.run { engine, supply } commands
    command.Effect desk answer (desk.step command).2 ∧
      desk.Frame command (desk.step command).2 := by
  intro desk
  have hsound : desk.Sound := sound_run (sound_empty hid) commands
  have htimely : desk.Timely := timely_run (sound_empty hid) (timely_empty hclock) commands
  have heffect := hsound.step_ok hanswer
  have hafter := timely_step hsound htimely command
  exact ⟨heffect, frame_of_effect hsound htimely hafter heffect⟩

theorem carried_out_within_frame_shelter :
    let desk := empty.run shelter
    let command := Command.remove "" "ii"
    Function.Injective Supply.tally.idAt ∧ Supply.tally.GoesForward ∧
      (desk.step command).1 = .ok .nothing ∧
      command.Effect desk .nothing (desk.step command).2 ∧
      desk.Frame command (desk.step command).2 := by
  intro desk command
  have hclock : Supply.tally.GoesForward := fun _ _ => Int.ofNat_lt.mpr
  have hdone : (desk.step command).1 = .ok .nothing := rfl
  exact ⟨tally_injective, hclock, hdone,
    carried_out_within_frame layeredEngine .tally tally_injective hclock shelter command .nothing
      hdone⟩

end Desk

end ClassAtlas
