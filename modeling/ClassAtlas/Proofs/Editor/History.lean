import ClassAtlas.Proofs.Editor.Invariant

/-!
# What becomes of the ends of an arrow

An arrow refers to its ends by id, and it stays when one of them is removed. The history of a run
tells where its ends are: an arrow is drawn between elements of its diagram, no command gives it
other ends, only removing takes an element out, and an id that has been given is never given to
another element. So an end that is not there was removed, and it is gone for good.
-/

namespace ClassAtlas

namespace Desk

variable {desk desk' : Desk} {command : Command} {answer : Answer} {commands more : List Command}
  {diagram diagram' x : String} {ends ends' : List String}

/-! ## Elements of an archive -/

/-- A diagram has an element. -/
def Has (desk : Desk) (diagram x : String) : Prop :=
  ∃ d ∈ desk.archive.diagrams, d.id = diagram ∧ x ∈ d.ids

/-- A diagram has an element, and these are its ends. -/
def Holds (desk : Desk) (diagram x : String) (ends : List String) : Prop :=
  ∃ d ∈ desk.archive.diagrams, d.id = diagram ∧ ∃ e ∈ d.elements, e.id = x ∧ e.endIds = ends

/-- An element comes into a diagram. -/
structure Draws (desk desk' : Desk) (diagram x : String) (ends : List String) : Prop where
  /-- Its id has never been given before. -/
  new : ¬ desk.supply.Taken x
  holds : desk'.Holds diagram x ends
  /-- Its ends are other elements of the diagram. -/
  joins : ∀ y ∈ ends, y ≠ x ∧ desk'.Has diagram y

/-- An element goes out of a diagram, and no other diagram has it. -/
structure Drops (desk desk' : Desk) (diagram x : String) : Prop where
  was : desk.Has diagram x
  gone : ∀ diagram', ¬ desk'.Has diagram' x

theorem has_iff : desk.Has diagram x ↔ ∃ ends, desk.Holds diagram x ends := by
  constructor
  · rintro ⟨d, hd, hid, hx⟩
    obtain ⟨e, he, heq⟩ := List.mem_map.mp hx
    exact ⟨e.endIds, d, hd, hid, e, he, heq, rfl⟩
  · rintro ⟨_, d, hd, hid, e, he, rfl, _⟩
    exact ⟨d, hd, hid, List.mem_map_of_mem he⟩

theorem Holds.has (hx : desk.Holds diagram x ends) : desk.Has diagram x := has_iff.mpr ⟨ends, hx⟩

theorem Sound.taken_of_has (h : desk.Sound) (hx : desk.Has diagram x) : desk.supply.Taken x := by
  obtain ⟨d, hd, _, hmem⟩ := hx
  exact h.taken x (Archive.mem_ids.mpr ⟨d, hd, List.mem_cons_of_mem _ hmem⟩)

/-- An id belongs to one element of one diagram. -/
theorem Sound.holds_unique (h : desk.Sound) (hx : desk.Holds diagram x ends)
    (hx' : desk.Holds diagram' x ends') : diagram = diagram' ∧ ends = ends' := by
  obtain ⟨d, hd, rfl, e, he, rfl, rfl⟩ := hx
  obtain ⟨d', hd', rfl, e', he', hid, rfl⟩ := hx'
  have hmem : e.id ∈ d.allIds := List.mem_cons_of_mem _ (List.mem_map_of_mem he)
  have hmem' : e.id ∈ d'.allIds := hid ▸ List.mem_cons_of_mem _ (List.mem_map_of_mem he')
  obtain rfl := Archive.eq_of_mem_allIds h.ids hd hd' hmem hmem'
  obtain rfl := List.inj_on_of_nodup_map (h.nodup_ids hd) he' he hid
  exact ⟨rfl, rfl⟩

/-! ## One command -/

/-- What an archive holds depends on its diagrams only. -/
theorem holds_of_idles (hi : desk.Idles desk') (hx : desk'.Holds diagram x ends) :
    desk.Holds diagram x ends := by
  unfold Holds at hx ⊢
  exact hi.archive ▸ hx

theorem has_of_idles (hi : desk.Idles desk') (hx : desk.Has diagram x) : desk'.Has diagram x := by
  unfold Has at hx ⊢
  exact hi.archive ▸ hx

theorem holds_of_files {d : Diagram Float} (h : desk.Sound) (hf : desk.Files desk' d)
    (hx : desk'.Holds diagram x ends) :
    desk.Holds diagram x ends ∨ desk.Draws desk' diagram x ends := by
  obtain ⟨d', hd', hid, e, he, rfl, rfl⟩ := hx
  rcases List.mem_append.mp (hf.diagrams ▸ hd') with hold | hnew
  · exact .inl ⟨d', hold, hid, e, he, rfl, rfl⟩
  · obtain rfl := List.mem_singleton.mp hnew
    -- an element of a new diagram has an id that was taken only now
    have hnext : e.id ∈ desk.supply.nextIds (d'.elements.length + 1) :=
      hf.allIds ▸ List.mem_cons_of_mem _ (List.mem_map_of_mem he)
    refine .inr ⟨Supply.not_taken_of_mem_nextIds h.injective hnext,
      ⟨d', hd', hid, e, he, rfl, rfl⟩, ?_⟩
    intro y hy
    obtain ⟨hmem, hne⟩ := (hf.closed e he).2 y hy
    exact ⟨hne, d', hd', hid, hmem⟩

theorem holds_of_revision {id : String} {old new : List (Element Float)} {n : Nat} (h : desk.Sound)
    (hr : desk.Revision command desk' id old new n) (hx : desk'.Holds diagram x ends) :
    desk.Holds diagram x ends ∨ desk.Draws desk' diagram x ends := by
  obtain ⟨front, d, back, hsplit, -, rfl, hsplit'⟩ := hr.revises.diagrams
  obtain ⟨d', hd', hid, e, he, rfl, rfl⟩ := hx
  rcases mem_exchange (hsplit' ▸ hd') with rfl | hold
  · -- an element of the revised diagram stands for an old one, or it is the new one
    rcases hr.elements e he with ⟨e₀, he₀, hreplaces⟩ | ⟨hnext, _, hjoins⟩
    · have hd : d ∈ desk.archive.diagrams :=
        hsplit ▸ List.mem_append_right _ (List.mem_cons_self ..)
      exact .inl ⟨d, hd, hid, e₀, he₀, hreplaces.id_eq.symm, hreplaces.endIds_eq.symm⟩
    · refine .inr ⟨Supply.not_taken_of_mem_nextIds h.injective hnext,
        ⟨_, hd', hid, e, he, rfl, rfl⟩, ?_⟩
      intro y hy
      obtain ⟨hmem, hne⟩ := hjoins y hy
      exact ⟨hne, _, hd', hid, hmem⟩
  · exact .inl ⟨d', hsplit ▸ hold, hid, e, he, rfl, rfl⟩

/-- An element with its ends was there before a command, or the command has drawn it. -/
theorem holds_step (h : desk.Sound) (command : Command)
    (hx : (desk.step command).2.Holds diagram x ends) :
    desk.Holds diagram x ends ∨ desk.Draws (desk.step command).2 diagram x ends := by
  rcases h.step_cases command with hidles | ⟨d, hfiles⟩ | ⟨id, old, new, n, hrevision⟩
  · exact .inl (holds_of_idles hidles hx)
  · exact holds_of_files h hfiles hx
  · exact holds_of_revision h hrevision hx

theorem has_of_revision {id : String} {old new : List (Element Float)} {n : Nat}
    (hr : desk.Revision command desk' id old new n) (hx : desk.Has diagram x) :
    desk'.Has diagram x ∨ command = .remove diagram x := by
  obtain ⟨front, d, back, hsplit, rfl, rfl, hsplit'⟩ := hr.revises.diagrams
  obtain ⟨d', hd', rfl, hmem⟩ := hx
  rcases mem_exchange (hsplit ▸ hd') with rfl | hstays
  · refine (hr.kept x hmem).imp_left fun hkept => ?_
    refine ⟨{ d' with elements := new, updated := desk.supply.now }, ?_, rfl, hkept⟩
    rw [hsplit']
    exact List.mem_append_right _ (List.mem_cons_self ..)
  · exact .inl ⟨d', hsplit' ▸ hstays, rfl, hmem⟩

/-- An element stays in its diagram unless the command removes it; then no diagram has it. -/
theorem has_step (h : desk.Sound) (command : Command) (hx : desk.Has diagram x) :
    (desk.step command).2.Has diagram x ∨
      (command = .remove diagram x ∧ desk.Drops (desk.step command).2 diagram x) := by
  by_cases hafter : (desk.step command).2.Has diagram x
  · exact .inl hafter
  refine .inr ⟨?_, hx, ?_⟩
  · rcases h.step_cases command with hidles | ⟨d, hfiles⟩ | ⟨id, old, new, n, hrevision⟩
    · exact absurd (has_of_idles hidles hx) hafter
    · obtain ⟨d', hd', hid, hmem⟩ := hx
      exact absurd ⟨d', hfiles.diagrams ▸ List.mem_append_left _ hd', hid, hmem⟩ hafter
    · exact (has_of_revision hrevision hx).resolve_left hafter
  · -- where the element is found now, it was before, since its id is not new; and that is here
    intro diagram' hx'
    obtain ⟨ends, hholds⟩ := has_iff.mp hx
    obtain ⟨ends', hholds'⟩ := has_iff.mp hx'
    rcases holds_step h command hholds' with hbefore | hdraws
    · obtain ⟨rfl, _⟩ := h.holds_unique hholds hbefore
      exact hafter hx'
    · exact hdraws.new (h.taken_of_has hx)

theorem taken_step (h : desk.Sound) (command : Command) (hx : desk.supply.Taken x) :
    (desk.step command).2.supply.Taken x := by
  rcases h.step_cases command with hidles | ⟨d, hfiles⟩ | ⟨id, old, new, n, hrevision⟩
  · obtain ⟨ids, times, hsupply⟩ := hidles.supply
    rw [hsupply]
    exact hx.afterIds ids
  · rw [hfiles.supply]
    exact hx.afterIds _
  · rw [hrevision.supply]
    exact hx.afterIds _

/-! ## Runs -/

theorem taken_run (h : desk.Sound) (hx : desk.supply.Taken x) (commands : List Command) :
    (desk.run commands).supply.Taken x := by
  induction commands generalizing desk with
  | nil => exact hx
  | cons command commands ih => exact ih (sound_step h command) (taken_step h command hx)

theorem run_concat (desk : Desk) (commands : List Command) (command : Command) :
    desk.run (commands ++ [command]) = ((desk.run commands).step command).2 :=
  run_append desk commands [command]

/-- Under an id that has been given, a run brings nothing that was not there before. -/
theorem holds_of_run (h : desk.Sound) (ht : desk.supply.Taken x)
    (hx : (desk.run commands).Holds diagram x ends) : desk.Holds diagram x ends := by
  induction commands generalizing desk with
  | nil => exact hx
  | cons command commands ih =>
    have hstep := ih (sound_step h command) (taken_step h command ht) hx
    rcases holds_step h command hstep with hbefore | hdraws
    · exact hbefore
    · exact absurd ht hdraws.new

theorem has_of_run (h : desk.Sound) (ht : desk.supply.Taken x)
    (hx : (desk.run commands).Has diagram x) : desk.Has diagram x := by
  obtain ⟨ends, hholds⟩ := has_iff.mp hx
  exact (holds_of_run h ht hholds).has

/-- One of some commands removes an element. -/
def Removed (desk : Desk) (commands : List Command) (diagram x : String) : Prop :=
  ∃ front back, commands = front ++ .remove diagram x :: back ∧
    (desk.run front).Drops (desk.run (front ++ [.remove diagram x])) diagram x

/-- One of some commands draws an element, and since then each of its ends has stayed in the diagram
or has been removed. -/
def Drawn (desk : Desk) (commands : List Command) (diagram x : String) (ends : List String) :
    Prop :=
  ∃ front command back, commands = front ++ command :: back ∧
    (desk.run front).Draws (desk.run (front ++ [command])) diagram x ends ∧
    ∀ y ∈ ends, (desk.run commands).Has diagram y ∨
      (desk.run (front ++ [command])).Removed back diagram y

theorem Removed.append (hx : desk.Removed commands diagram x) (more : List Command) :
    desk.Removed (commands ++ more) diagram x := by
  obtain ⟨front, back, rfl, hdrops⟩ := hx
  exact ⟨front, back ++ more, by rw [List.append_assoc, List.cons_append], hdrops⟩

theorem removed_of_drops (hdrops : (desk.run commands).Drops
      ((desk.run commands).step (.remove diagram x)).2 diagram x) :
    desk.Removed (commands ++ [.remove diagram x]) diagram x :=
  ⟨commands, [], rfl, run_concat .. ▸ hdrops⟩

/-- What was drawn stays drawn, and an end that was there is now removed at the latest. -/
theorem Drawn.concat (h : desk.Sound) (hx : desk.Drawn commands diagram x ends)
    (command : Command) : desk.Drawn (commands ++ [command]) diagram x ends := by
  obtain ⟨front, first, back, rfl, hdraws, hends⟩ := hx
  refine ⟨front, first, back ++ [command], by rw [List.append_assoc, List.cons_append], hdraws, ?_⟩
  intro y hy
  have hrun : desk.run (front ++ first :: back) = (desk.run (front ++ [first])).run back := by
    rw [← run_append, List.append_assoc, List.singleton_append]
  -- an end that is there may be removed by this command; one that was removed stays so
  rcases hends y hy with hhas | hremoved
  · rcases has_step (sound_run h _) command hhas with hstays | ⟨rfl, hdrops⟩
    · exact .inl (run_concat .. ▸ hstays)
    · rw [hrun] at hdrops
      exact .inr (removed_of_drops hdrops)
  · exact .inr (hremoved.append [command])

/-- Whatever an archive holds in the end was there in the beginning or has been drawn. -/
theorem drawn_run (h : desk.Sound) (hx : (desk.run commands).Holds diagram x ends) :
    desk.Holds diagram x ends ∨ desk.Drawn commands diagram x ends := by
  -- the last command draws it, or it was there before and the commands up to then drew it
  induction commands using List.reverseRecOn with
  | nil => exact .inl hx
  | append_singleton commands command ih =>
    rw [run_concat] at hx
    rcases holds_step (sound_run h commands) command hx with hbefore | hdraws
    · exact (ih hbefore).imp_right fun hdrawn => hdrawn.concat h command
    · rw [← run_concat] at hdraws
      refine .inr ⟨commands, command, [], rfl, hdraws, ?_⟩
      intro y hy
      exact .inl (hdraws.joins y hy).2

/-- At some time, the ends of an element that was drawn were there. -/
theorem Drawn.had (hx : desk.Drawn commands diagram x ends) {y : String} (hy : y ∈ ends) :
    ∃ front back, commands = front ++ back ∧ (desk.run front).Has diagram y := by
  obtain ⟨front, command, back, rfl, hdraws, _⟩ := hx
  refine ⟨front ++ [command], back, ?_, (hdraws.joins y hy).2⟩
  rw [List.append_assoc, List.singleton_append]

theorem Drawn.taken (h : desk.Sound) (hx : desk.Drawn commands diagram x ends) {y : String}
    (hy : y ∈ ends) : (desk.run commands).supply.Taken y := by
  obtain ⟨front, back, rfl, hhad⟩ := hx.had hy
  have hsound := sound_run h front
  rw [run_append]
  exact taken_run hsound (hsound.taken_of_has hhad) back

/-- No other diagram has what was once an end of an element. -/
theorem Drawn.diagram_eq (h : desk.Sound) (hx : desk.Drawn commands diagram x ends) {y : String}
    (hy : y ∈ ends) (hhas : (desk.run commands).Has diagram' y) : diagram' = diagram := by
  obtain ⟨front, back, rfl, hhad⟩ := hx.had hy
  have hsound := sound_run h front
  rw [run_append] at hhas
  obtain ⟨ends, hholds⟩ := has_iff.mp hhad
  obtain ⟨ends', hholds'⟩ := has_iff.mp (has_of_run hsound (hsound.taken_of_has hhad) hhas)
  exact (hsound.holds_unique hholds' hholds).1

/-- **Ends are lost only by removal, and for good.** Take an arrow of the archive after any run from
an empty archive, with any engine and with ids that are never given twice. Both ends were other
elements of its diagram when it was drawn, and each is there still or was removed since then. No
other diagram has an element under the id of an end. If an end is lost, then after any further
commands the arrow, where it is still there, has the same ends and does not resolve. -/
theorem ends_lost_for_good (engine : Engine Float) (supply : Supply)
    (hid : Function.Injective supply.idAt) (commands : List Command) (d : Diagram Float)
    (hd : d ∈ (Desk.run { engine, supply } commands).archive.diagrams) (a : Arrow Float)
    (ha : .arrow a ∈ d.elements) :
    let start : Desk := { engine, supply }
    let desk := start.run commands
    start.Drawn commands d.id a.id [a.source, a.target] ∧
      (∀ x ∈ [a.source, a.target], ∀ d' ∈ desk.archive.diagrams, x ∈ d'.ids → d' = d) ∧
      ∀ x ∈ [a.source, a.target], x ∉ d.ids → ∀ more, ∀ d' ∈ (desk.run more).archive.diagrams,
        ∀ a', .arrow a' ∈ d'.elements → a'.id = a.id →
          d'.id = d.id ∧ a'.source = a.source ∧ a'.target = a.target ∧ d'.ends? a' = none := by
  intro start desk
  have hstart : start.Sound := sound_empty hid
  have hsound : desk.Sound := sound_run hstart commands
  have harrow : desk.Holds d.id a.id [a.source, a.target] := ⟨d, hd, rfl, _, ha, rfl, rfl⟩
  have hdrawn : start.Drawn commands d.id a.id [a.source, a.target] :=
    (drawn_run hstart harrow).resolve_left fun ⟨_, hmem, _⟩ => List.not_mem_nil hmem
  have hsame : ∀ d' ∈ desk.archive.diagrams, d'.id = d.id → d' = d := fun d' hd' heq =>
    List.inj_on_of_nodup_map (Archive.nodup_diagramIds hsound.ids) hd' hd heq
  refine ⟨hdrawn, ?_, ?_⟩
  · intro x hx d' hd' hmem
    exact hsame d' hd' (hdrawn.diagram_eq hstart hx ⟨d', hd', rfl, hmem⟩)
  · intro x hx hlost more d' hd' a' ha' heq
    have harrow' : (desk.run more).Holds d'.id a.id [a'.source, a'.target] :=
      ⟨d', hd', rfl, _, ha', heq, rfl⟩
    have htaken := hsound.taken_of_has harrow.has
    obtain ⟨hdiagram, hends⟩ := hsound.holds_unique (holds_of_run hsound htaken harrow') harrow
    obtain ⟨hsource, htarget⟩ : a'.source = a.source ∧ a'.target = a.target := by simpa using hends
    -- an id that was given and is in use no longer stays out of use
    have hout : x ∉ d'.ids := by
      intro hmem
      obtain ⟨d'', hd'', heq'', hmem''⟩ :=
        has_of_run hsound (hdrawn.taken hstart hx) ⟨d', hd', rfl, hmem⟩
      exact hlost (hsame d'' hd'' (heq''.trans hdiagram) ▸ hmem'')
    exact ⟨hdiagram, hsource, htarget, Diagram.ends?_eq_none (hends ▸ hx) hout⟩

/-- The dog without the pet, and the arrow that has lost its end. -/
def stray : Diagram Float where
  id := ""
  name := "Shelter"
  elements :=
    [.node { id := "i", kind := .classBox, position := some ⟨0, 0⟩, text := some "Dog",
             members := some {} },
      .arrow { id := "iii", kind := .implementation, source := "i", target := "ii" }]
  created := 0
  updated := 6

theorem diagrams_stray :
    (empty.run (shelter ++ [.remove "" "ii"])).archive.diagrams = [stray] := rfl

theorem ends_lost_for_good_stray :
    let commands := shelter ++ [.remove "" "ii"]
    let desk := empty.run commands
    Function.Injective Supply.tally.idAt ∧ desk.archive.diagrams = [stray] ∧
      ∃ a, .arrow a ∈ stray.elements ∧ a.target ∉ stray.ids ∧
        empty.Drawn commands "" "iii" ["i", "ii"] ∧
        ∀ more, ∀ d ∈ (desk.run more).archive.diagrams, .arrow a ∈ d.elements →
          d.ends? a = none := by
  intro commands desk
  let a : Arrow Float := { id := "iii", kind := .implementation, source := "i", target := "ii" }
  have hdiagrams : desk.archive.diagrams = [stray] := diagrams_stray
  have hstray : stray ∈ desk.archive.diagrams := hdiagrams ▸ List.mem_singleton_self _
  have ha : .arrow a ∈ stray.elements := List.mem_cons_of_mem _ (List.mem_singleton_self _)
  have hlost : a.target ∉ stray.ids := by decide
  obtain ⟨hdrawn, -, hforGood⟩ :=
    ends_lost_for_good layeredEngine .tally tally_injective commands stray hstray a ha
  refine ⟨tally_injective, hdiagrams, a, ha, hlost, hdrawn, ?_⟩
  intro more d hd hmem
  exact (hforGood a.target (by decide) hlost more d hd a hmem rfl).2.2.2

end Desk

end ClassAtlas
