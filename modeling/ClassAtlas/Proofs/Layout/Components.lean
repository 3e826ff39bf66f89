import Mathlib.Data.List.Nodup
import Mathlib.Data.List.Perm.Basic
import ClassAtlas.Layout.Layered
import ClassAtlas.Proofs.Repetition

/-!
# Components

The components of a chart are a partition of its boxes: joining the components of the two ends of a
link loses no box and repeats none. This is all that a layout relies on when it leaves the
components to an engine.
-/

namespace ClassAtlas

variable {K : Type}

/-! ## Well-formed charts -/

namespace Chart

/-- No two boxes have the same id, and links join boxes. -/
structure WellFormed (chart : Chart K) : Prop where
  nodup : (chart.boxes.map (·.1)).Nodup
  closed : ∀ link ∈ chart.links,
    link.1 ∈ chart.boxes.map (·.1) ∧ link.2 ∈ chart.boxes.map (·.1)

theorem of_link? {ids : List String} {arrow : Arrow K} {link : String × String}
    (h : link? ids arrow = some link) : link.1 ∈ ids ∧ link.2 ∈ ids := by
  unfold link? at h
  split at h
  · rename_i hends
    obtain ⟨hsource, htarget, _⟩ := hends
    -- some links are turned around, but they have the same ends
    rw [← Option.some.inj h]
    split
    · exact ⟨htarget, hsource⟩
    · exact ⟨hsource, htarget⟩
  · exact absurd h (by simp)

theorem ids_ofDiagram (settings : LayoutSettings K) (d : Diagram K) :
    (ofDiagram settings d).boxes.map (·.1) = (d.nodes.map (·.id)).eraseDups := by
  unfold ofDiagram
  exact (List.map_map ..).trans (List.map_id _)

theorem wellFormed_ofDiagram (settings : LayoutSettings K) (d : Diagram K) :
    (ofDiagram settings d).WellFormed where
  nodup := by
    rw [ids_ofDiagram]
    exact nodup_eraseDups _
  closed := by
    intro link hlink
    rw [ids_ofDiagram]
    obtain ⟨_, _, harrow⟩ := List.mem_filterMap.mp (List.mem_eraseDups.mp hlink)
    exact of_link? harrow

end Chart

/-- The components that an engine finds are a partition of the boxes. -/
def Engine.Partitions (engine : Engine K) : Prop :=
  ∀ chart : Chart K, chart.WellFormed →
    ((engine.components chart).flatMap (·.boxes)).Perm chart.boxes

/-- No component that an engine finds is empty. -/
def Engine.Occupied (engine : Engine K) : Prop :=
  ∀ chart : Chart K, chart.WellFormed → ∀ c ∈ engine.components chart, c.boxes ≠ []

/-! ## Joining components -/

namespace Chart

section

variable {α : Type} {components front back : List (List α)} {found : List α} {x : α}
  {link : α × α}

/-- Where nothing is repeated, an element is in one of the lists only. -/
theorem not_mem_of_flatten_nodup (hn : (front ++ found :: back).flatten.Nodup) (hx : x ∈ found) :
    (∀ c ∈ front, x ∉ c) ∧ ∀ c ∈ back, x ∉ c := by
  rw [List.flatten_append, List.flatten_cons, List.nodup_append, List.nodup_append] at hn
  obtain ⟨_, ⟨_, _, hback⟩, hfront⟩ := hn
  refine ⟨fun c hc hxc => ?_, fun c hc hxc => ?_⟩
  · exact hfront x (List.mem_flatten_of_mem hc hxc) x (List.mem_append_left _ hx) rfl
  · exact hback x hx x (List.mem_flatten_of_mem hc hxc) rfl

variable [DecidableEq α]

/-- A join moves one component behind another one, and leaves the rest as it is. -/
theorem join_flatten_perm (hn : components.flatten.Nodup) (hmem : link.1 ∈ components.flatten) :
    (join components link).flatten.Perm components.flatten := by
  unfold join
  split
  · rename_i found hfind
    obtain ⟨hin, front, back, rfl, _⟩ := List.find?_eq_some_iff_append.mp hfind
    split
    · exact .refl _
    · rename_i hnot
      obtain ⟨hfront, hback⟩ := not_mem_of_flatten_nodup hn (of_decide_eq_true hin)
      have hothers : (front ++ found :: back).filter (link.2 ∉ ·) = front ++ back := by
        have keep : ∀ cs : List (List α), (∀ c ∈ cs, link.2 ∉ c) →
            cs.filter (link.2 ∉ ·) = cs :=
          fun cs hcs => List.filter_eq_self.mpr fun c hc => decide_eq_true (hcs c hc)
        rw [List.filter_append, List.filter_cons_of_neg (by simpa using hin), keep front hfront,
          keep back hback]
      have hrest : (front ++ found :: back).flatten.Perm (found ++ (front ++ back).flatten) :=
        List.perm_middle.flatten
      have hnrest : (front ++ back).flatten.Nodup :=
        (List.nodup_append.mp (hrest.nodup hn)).2.1
      -- the component of the first end is among the others
      have hfirst : link.1 ∈ (front ++ back).flatten := by
        rcases List.mem_append.mp (hrest.subset hmem) with h | h
        · exact absurd h hnot
        · exact h
      obtain ⟨c, hc, hxc⟩ := List.mem_flatten.mp hfirst
      obtain ⟨front', back', hsplit⟩ := List.append_of_mem hc
      rw [hsplit] at hnrest hrest hothers
      obtain ⟨hfront', hback'⟩ := not_mem_of_flatten_nodup hnrest hxc
      have same : ∀ cs : List (List α), (∀ c ∈ cs, link.1 ∉ c) →
          cs.map (fun c => if link.1 ∈ c then c ++ found else c) = cs := by
        intro cs hcs
        rw [List.map_congr_left fun c hc => if_neg (hcs c hc), List.map_id']
      rw [hothers, List.map_append, List.map_cons, if_pos hxc, same front' hfront',
        same back' hback']
      refine List.Perm.trans ?_ hrest.symm
      simp only [List.flatten_append, List.flatten_cons, List.append_assoc]
      exact ((List.perm_append_comm_assoc c found _).append_left _).trans
        (List.perm_append_comm_assoc _ found _)
  · exact .refl _

theorem ne_nil_of_mem_join (h : ∀ c ∈ components, c ≠ []) : ∀ c ∈ join components link, c ≠ [] := by
  unfold join
  split
  · split
    · exact h
    · intro c hc
      obtain ⟨c', hc', rfl⟩ := List.mem_map.mp hc
      -- a component is dropped or made longer
      have hne : c' ≠ [] := h c' (List.mem_of_mem_filter hc')
      split
      · exact List.append_ne_nil_of_left_ne_nil hne _
      · exact hne
  · exact h

theorem ne_nil_of_mem_componentsOf (vertices : List α) (links : List (α × α)) :
    ∀ c ∈ componentsOf vertices links, c ≠ [] := by
  have step : ∀ (links : List (α × α)) (components : List (List α)),
      (∀ c ∈ components, c ≠ []) → ∀ c ∈ links.foldl join components, c ≠ [] := by
    intro links
    induction links with
    | nil => exact fun _ h => h
    | cons link links ih => exact fun components h => ih _ (ne_nil_of_mem_join h)
  refine step links _ fun c hc => ?_
  obtain ⟨v, _, rfl⟩ := List.mem_map.mp hc
  exact List.cons_ne_nil v []

/-- **The components are a partition of the vertices.** -/
theorem componentsOf_flatten_perm {vertices : List α} (hn : vertices.Nodup)
    {links : List (α × α)} (hlinks : ∀ link ∈ links, link.1 ∈ vertices) :
    (componentsOf vertices links).flatten.Perm vertices := by
  -- the induction is on the links, from any components of the same vertices
  have step : ∀ (links : List (α × α)) (components : List (List α)),
      (∀ link ∈ links, link.1 ∈ vertices) → components.flatten.Perm vertices →
      (links.foldl join components).flatten.Perm vertices := by
    intro links
    induction links with
    | nil => exact fun _ _ h => h
    | cons link links ih =>
      intro components hlinks h
      have hjoin : (join components link).flatten.Perm components.flatten :=
        join_flatten_perm (h.nodup_iff.mpr hn) (h.mem_iff.mpr (hlinks link (by simp)))
      exact ih _ (fun l hl => hlinks l (List.mem_cons_of_mem _ hl)) (hjoin.trans h)
  refine step links _ hlinks ?_
  rw [← List.flatMap_def, List.flatMap_singleton']

end

/-- A chart has each of its boxes in exactly one of its components. -/
theorem boxes_components_perm {chart : Chart K} (h : chart.WellFormed) :
    (chart.components.flatMap (·.boxes)).Perm chart.boxes := by
  have hids := componentsOf_flatten_perm h.nodup fun link hlink => (h.closed link hlink).1
  -- ids are unique, so that each finds its own box
  have hfind : (chart.boxes.map (·.1)).filterMap (fun id => chart.boxes.find? (·.1 == id)) =
      chart.boxes := by
    rw [List.filterMap_map]
    refine (List.filterMap_congr ?_).trans List.filterMap_some
    exact fun box hbox => find?_key_of_mem h.nodup hbox
  have hboxes : chart.components.flatMap (·.boxes) =
      (componentsOf (chart.boxes.map (·.1)) chart.links).flatten.filterMap
        fun id => chart.boxes.find? (·.1 == id) := by
    unfold components
    rw [List.flatMap_map, List.filterMap_flatten, List.flatMap_def]
  rw [hboxes]
  exact (hids.filterMap _).trans (by rw [hfind])

/-- Every component of a chart has a box. -/
theorem boxes_ne_nil_of_mem_components {chart component : Chart K} (h : chart.WellFormed)
    (hc : component ∈ chart.components) : component.boxes ≠ [] := by
  obtain ⟨ids, hids, rfl⟩ := List.mem_map.mp hc
  obtain ⟨id, hid⟩ := List.exists_mem_of_ne_nil ids (ne_nil_of_mem_componentsOf _ _ ids hids)
  -- the id of a vertex is that of a box
  have hperm := componentsOf_flatten_perm h.nodup fun link hlink => (h.closed link hlink).1
  obtain ⟨box, hbox, rfl⟩ := List.mem_map.mp (hperm.subset (List.mem_flatten_of_mem hids hid))
  exact List.ne_nil_of_mem
    (List.mem_filterMap.mpr ⟨box.1, hid, find?_key_of_mem h.nodup hbox⟩)

theorem partitions_components (drawing : Drawing K) :
    (⟨components, drawing⟩ : Engine K).Partitions :=
  fun _ h => boxes_components_perm h

theorem occupied_components (drawing : Drawing K) :
    (⟨components, drawing⟩ : Engine K).Occupied :=
  fun _ h _ hc => boxes_ne_nil_of_mem_components h hc

end Chart

theorem partitions_layeredEngine : layeredEngine.Partitions := Chart.partitions_components _

/-- An engine that draws the boxes of a component side by side in one row. -/
def rowEngine : Engine Int where
  components := Chart.components
  drawing := fun _ chart => .ok (chart.boxes.zipIdx.map fun (box, i) => (box.1, ⟨100 * i, 0⟩))

theorem partitions_rowEngine : rowEngine.Partitions := Chart.partitions_components _

/-! ## Corners -/

section

variable {ε α β : Type} {result : Except ε α} {next : α → Except ε β}

theorem bind_eq_ok {b : β} :
    (result >>= next) = .ok b ↔ ∃ a, result = .ok a ∧ next a = .ok b := by
  cases result with
  | error failure => exact ⟨nofun, nofun⟩
  | ok a =>
    refine ⟨fun h => ⟨a, rfl, h⟩, ?_⟩
    rintro ⟨_, ha, h⟩
    exact Except.ok.inj ha ▸ h

theorem map_eq_ok {f : α → β} {b : β} :
    result.map f = .ok b ↔ ∃ a, result = .ok a ∧ f a = b := by
  cases result with
  | error failure => exact ⟨nofun, nofun⟩
  | ok a =>
    refine ⟨fun h => ⟨a, rfl, Except.ok.inj h⟩, ?_⟩
    rintro ⟨_, ha, h⟩
    exact Except.ok.inj ha ▸ congrArg Except.ok h

theorem bind_eq_error {failure : ε} :
    (result >>= next) = .error failure ↔
      result = .error failure ∨ ∃ a, result = .ok a ∧ next a = .error failure := by
  cases result with
  | error failure' =>
    refine ⟨fun h => .inl (Except.error.inj h ▸ rfl), ?_⟩
    rintro (h | ⟨_, ha, -⟩)
    · exact Except.error.inj h ▸ rfl
    · cases ha
  | ok a =>
    refine ⟨fun h => .inr ⟨a, rfl, h⟩, ?_⟩
    rintro (h | ⟨_, ha, h⟩)
    · cases h
    · exact Except.ok.inj ha ▸ h

end

section

variable [Add K] [Sub K] [Div K] [LT K] [DecidableLT K] [OfNat K 0] [OfNat K 2]
  {settings : LayoutSettings K} {drawing : Drawing K} {left : K} {chart : Chart K}
  {charts : List (Chart K)} {corners : List (String × Point K)}

/-- A component is placed before the others if it can be drawn and they can be placed. -/
theorem placeComponents_cons_eq_ok :
    placeComponents settings drawing left (chart :: charts) = .ok corners ↔
      ∃ centers, drawing settings chart = .ok centers ∧
        ∃ others, placeComponents settings drawing
            (placeComponent settings left chart.boxes (centerOf centers)).2 charts = .ok others ∧
          (placeComponent settings left chart.boxes (centerOf centers)).1 ++ others = corners := by
  rw [placeComponents, bind_eq_ok]
  refine exists_congr fun centers => and_congr_right fun _ => bind_eq_ok.trans ?_
  exact exists_congr fun others => and_congr_right fun _ =>
    ⟨Except.ok.inj, congrArg Except.ok⟩

/-- **Components are placed if all of them can be drawn.** -/
theorem exists_placeComponents_iff :
    (∃ corners, placeComponents settings drawing left charts = .ok corners) ↔
      ∀ c ∈ charts, ∃ centers, drawing settings c = .ok centers := by
  induction charts generalizing left with
  | nil => exact ⟨fun _ _ hc => absurd hc List.not_mem_nil, fun _ => ⟨[], rfl⟩⟩
  | cons chart charts ih =>
    rw [List.forall_mem_cons]
    constructor
    · rintro ⟨corners, h⟩
      obtain ⟨centers, hcenters, others, hothers, -⟩ := placeComponents_cons_eq_ok.mp h
      exact ⟨⟨centers, hcenters⟩, ih.mp ⟨others, hothers⟩⟩
    · rintro ⟨⟨centers, hcenters⟩, hrest⟩
      obtain ⟨others, hothers⟩ := ih.mpr hrest
      exact ⟨_, placeComponents_cons_eq_ok.mpr ⟨centers, hcenters, others, hothers, rfl⟩⟩

/-- A failure is that of a component. -/
theorem of_placeComponents_eq_error {cause : String}
    (h : placeComponents settings drawing left charts = .error cause) :
    ∃ c ∈ charts, drawing settings c = .error cause := by
  induction charts generalizing left with
  | nil => cases h
  | cons chart charts ih =>
    -- the first component that cannot be drawn decides
    rw [placeComponents] at h
    rcases bind_eq_error.mp h with hchart | ⟨centers, -, hrest⟩
    · exact ⟨chart, List.mem_cons_self .., hchart⟩
    · rcases bind_eq_error.mp hrest with hothers | ⟨others, -, hdone⟩
      · obtain ⟨c, hc, hcause⟩ := ih hothers
        exact ⟨c, List.mem_cons_of_mem _ hc, hcause⟩
      · cases hdone

/-- Every box of a component gets a corner. -/
theorem ids_placeComponents (h : placeComponents settings drawing left charts = .ok corners) :
    corners.map (·.1) = (charts.flatMap (·.boxes)).map (·.1) := by
  induction charts generalizing left corners with
  | nil =>
    cases h
    rfl
  | cons chart charts ih =>
    obtain ⟨centers, -, others, hothers, rfl⟩ := placeComponents_cons_eq_ok.mp h
    -- a component is placed box by box, wherever its centers are
    have hone : (placeComponent settings left chart.boxes (centerOf centers)).1.map (·.1) =
        chart.boxes.map (·.1) := by
      unfold placeComponent
      split
      · rename_i heq
        rw [heq]
        rfl
      · rename_i heq
        rw [heq, List.map_map]
        rfl
    rw [List.map_append, ih hothers, hone, List.flatMap_cons, List.map_append]

end

end ClassAtlas
