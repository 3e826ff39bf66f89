import ClassAtlas.Proofs.Diagram.Ends

/-!
# Leaving elements out

As long as ids are distinct, leaving elements out of a diagram does not change what an id finds, but
for the elements that are gone: there is no second element behind the one that is left out. So two
selections from a diagram show the same if they have the same boxes and differ only in arrows that
have lost an end.
-/

namespace ClassAtlas

variable {K : Type} {d : Diagram K} {p q : Element K → Bool}

/-- The diagram with only those elements that pass a test. -/
def Diagram.select (d : Diagram K) (p : Element K → Bool) : Diagram K :=
  { d with elements := d.elements.filter p }

theorem ids_select_nodup (hn : d.ids.Nodup) (p : Element K → Bool) : (d.select p).ids.Nodup :=
  hn.sublist (List.filter_sublist.map _)

/-! ## What ids find -/

theorem find?_select (hn : d.ids.Nodup) (p : Element K → Bool) (id : String) :
    (d.select p).find? id = (d.find? id).filter p := by
  cases hfind : d.find? id with
  | none =>
    have hnone := List.find?_eq_none.mp hfind
    refine List.find?_eq_none.mpr ?_
    intro e he
    exact hnone e (List.mem_filter.mp he).1
  | some e =>
    have he : e ∈ d.elements := List.mem_of_find?_eq_some hfind
    obtain rfl : e.id = id := by simpa using List.find?_some hfind
    by_cases hp : p e = true
    · rw [Option.filter_some_pos hp]
      exact find?_of_mem (ids_select_nodup hn p) (List.mem_filter.mpr ⟨he, hp⟩)
    · -- the element with the id is gone, and no other one has it
      rw [Option.filter_some_neg (Bool.not_eq_true _ ▸ hp)]
      refine List.find?_eq_none.mpr ?_
      intro x hx hid
      obtain ⟨hx, hpx⟩ := List.mem_filter.mp hx
      obtain rfl : x = e := List.inj_on_of_nodup_map hn hx he (by simpa using hid)
      exact hp hpx

theorem node?_select (hn : d.ids.Nodup) (p : Element K → Bool) (id : String) :
    (d.select p).node? id = (d.node? id).filter fun n => p (.node n) := by
  unfold Diagram.node?
  rw [find?_select hn]
  cases d.find? id with
  | none => rfl
  | some e =>
    cases he : e.node? with
    | none => cases hp : p e <;> simp [Option.filter, hp, he]
    | some n =>
      obtain ⟨rfl, _⟩ := Element.node?_eq_some_iff.mp he
      cases hp : p (.node n) <;> simp [Option.filter, hp, he]

/-- Which boxes are at the ends of an arrow is told by the boxes that are still there. -/
theorem ends?_select_congr (hn : d.ids.Nodup) (hboxes : ∀ n, p (.node n) = q (.node n))
    (a : Arrow K) : (d.select p).ends? a = (d.select q).ends? a := by
  unfold Diagram.ends?
  simp only [node?_select hn, hboxes]

/-! ## Boxes and relations -/

theorem filterMap_select {α : Type} {f : Element K → Option α} {g : α → Element K}
    (hf : ∀ e x, f e = some x → e = g x) (p : Element K → Bool) :
    (d.select p).elements.filterMap f = (d.elements.filterMap f).filter fun x => p (g x) := by
  unfold Diagram.select
  rw [List.filterMap_filter, List.filter_filterMap]
  refine List.filterMap_congr ?_
  intro e _
  cases he : f e with
  | none => split <;> rfl
  | some x =>
    obtain rfl := hf e x he
    rfl

theorem nodes_select (d : Diagram K) (p : Element K → Bool) :
    (d.select p).nodes = d.nodes.filter fun n => p (.node n) :=
  filterMap_select (fun _ _ he => (Element.node?_eq_some_iff.mp he).1) p

theorem arrows_select (d : Diagram K) (p : Element K → Bool) :
    (d.select p).arrows = d.arrows.filter fun a => p (.arrow a) :=
  filterMap_select (fun _ _ he => (Element.arrow?_eq_some_iff.mp he).1) p

theorem labelledNodes_select_congr (hboxes : ∀ n, p (.node n) = q (.node n)) :
    (d.select p).labelledNodes = (d.select q).labelledNodes := by
  unfold Diagram.labelledNodes
  simp only [nodes_select, hboxes]

/-- Selections with the same boxes have the same relations if each arrow in which they differ has
lost an end. -/
theorem relations_select_congr (hn : d.ids.Nodup) (hboxes : ∀ n, p (.node n) = q (.node n))
    (harrows : ∀ a, p (.arrow a) ≠ q (.arrow a) → (d.select p).ends? a = none) :
    (d.select p).relations = (d.select q).relations := by
  unfold Diagram.relations Diagram.endLabels?
  simp only [arrows_select, List.filterMap_filter, ← ends?_select_congr hn hboxes]
  refine List.filterMap_congr ?_
  intro a _
  by_cases hsame : p (.arrow a) = q (.arrow a)
  · rw [hsame]
  · rw [harrows a hsame]
    simp

/-! ## Arrows that have lost an end -/

/-- Whether an element is an arrow that has not got two ends with labels. -/
def Diagram.dangles (d : Diagram K) : Element K → Bool
  | .arrow a => (d.ends? a).isNone
  | _ => false

/-- The diagram without the arrows that have lost an end. -/
def Diagram.withoutDangling (d : Diagram K) : Diagram K := d.select fun e => !d.dangles e

/-- The diagram without the elements that bear an id, and without the arrows that lead from or to
them. -/
def Diagram.eraseWithArrows (d : Diagram K) (id : String) : Diagram K :=
  d.select fun e => e.id != id && !decide (id ∈ e.endIds)

theorem select_all (d : Diagram K) : (d.select fun _ => true) = d := by
  unfold Diagram.select
  rw [List.filter_true]

/-- An id that was erased finds nothing, whatever bore it. -/
theorem node?_erase (d : Diagram K) (id : String) : (d.erase id).node? id = none := by
  refine Diagram.node?_eq_none ?_
  intro hmem
  obtain ⟨e, he, hid⟩ := List.mem_map.mp hmem
  have hne := (List.mem_filter.mp he).2
  simp [hid] at hne

theorem withoutDangling_shows (hn : d.ids.Nodup) :
    d.withoutDangling.labelledNodes = d.labelledNodes ∧
      d.withoutDangling.relations = d.relations := by
  -- arrows that dangle resolve to nothing, so selecting against them is selecting all
  have hrelations : d.withoutDangling.relations = (d.select fun _ => true).relations := by
    refine Eq.symm (relations_select_congr hn (q := fun e => !d.dangles e) (fun _ => rfl) ?_)
    intro a hne
    rw [select_all]
    simpa [Diagram.dangles] using hne
  have hnodes : d.withoutDangling.labelledNodes = (d.select fun _ => true).labelledNodes :=
    labelledNodes_select_congr fun _ => rfl
  rw [select_all] at hnodes hrelations
  exact ⟨hnodes, hrelations⟩

theorem eraseWithArrows_shows (hn : d.ids.Nodup) (id : String) :
    (d.eraseWithArrows id).labelledNodes = (d.erase id).labelledNodes ∧
      (d.eraseWithArrows id).relations = (d.erase id).relations := by
  -- a box has no ends, so both selections keep the same boxes
  have hboxes (n : Node K) : ((Element.node n).id != id) =
      ((Element.node n).id != id && !decide (id ∈ (Element.node n).endIds)) := by
    simp [Element.endIds]
  refine ⟨(labelledNodes_select_congr hboxes).symm, (relations_select_congr hn hboxes ?_).symm⟩
  intro a hne
  -- the selections differ in arrows from or to the erased id, and it finds nothing any more
  have hend : id ∈ [a.source, a.target] := by
    by_contra hnot
    exact hne (by simp [Element.endIds, hnot])
  exact Diagram.ends?_of_node?_none hend (node?_erase d id)

end ClassAtlas
