import ClassAtlas.Proofs.Dialect
import ClassAtlas.Proofs.Layout.Drawing

/-!
# Stacked and layered readings

How the boxes are to be arranged plays no part in putting a diagram together. So the layered reading
of a text is its stacked reading, laid out by an engine; and what a layout draws is the boxes that
their ids find and the arrows between two boxes, and nothing else. All that is asked of the engine
is that its components are a partition of the boxes, and a layered reading is given exactly if it
can draw them.
-/

namespace ClassAtlas

namespace Assembly

/-- The assembly with another arrangement in its settings. -/
def rearranged (x : Arrangement) (a : Assembly) : Assembly :=
  { a with settings := { a.settings with arrangement := x } }

/-- A step that takes no notice of the arrangement. -/
structure Indifferent (f : Assembly → Assembly) : Prop where
  rearranged : ∀ a x, f (a.rearranged x) = (f a).rearranged x

theorem indifferent_declare (name : String) (kind : NodeKind) :
    Indifferent fun a => (a.declare name kind).2 where
  rearranged := by
    intro a x
    unfold declare
    rw [show (a.rearranged x).place? name = a.place? name from rfl]
    cases a.place? name <;> rfl

theorem indifferent_relate (r : Relation) : Indifferent fun a => (a.relate r).2 where
  rearranged := by
    intro a x
    unfold relate
    rw [show (a.rearranged x).node? r.source = a.node? r.source from rfl,
      show (a.rearranged x).node? r.target = a.node? r.target from rfl]
    cases a.node? r.source <;> cases a.node? r.target <;> rfl

theorem indifferent_enrich (name : String) (members : Members) :
    Indifferent fun a => a.enrich name members where
  rearranged := by
    intro a x
    unfold enrich
    rw [show (a.rearranged x).place? name = a.place? name from rfl]
    cases a.place? name with
    | none => rfl
    | some place =>
      by_cases hempty : members.attributes = [] ∧ members.methods = []
      · simp [hempty]
      · simp [hempty, Assembly.rearranged]

/-- Steps of this sort may be taken one after the other. -/
theorem indifferent_foldl {α : Type} {f : Assembly → α → Assembly}
    (hf : ∀ x, Indifferent fun a => f a x) (xs : List α) :
    Indifferent fun a => xs.foldl f a where
  rearranged := by
    induction xs with
    | nil => exact fun _ _ => rfl
    | cons y ys ih =>
      intro a x
      rw [List.foldl_cons, (hf y).rearranged, ih, List.foldl_cons]

theorem indifferent_declareAll (kind : NodeKind) (names : List String) :
    Indifferent fun a => a.declareAll kind names :=
  indifferent_foldl (fun name => indifferent_declare name kind) names

theorem indifferent_relateAll (relations : List Relation) :
    Indifferent fun a => a.relateAll relations :=
  indifferent_foldl indifferent_relate relations

theorem start_rearranged (settings : ReadSettings) (supply : Supply) (x : Arrangement) :
    start { settings with arrangement := x } supply = (start settings supply).rearranged x := rfl

end Assembly

open Assembly

theorem Code.indifferent_readMembers (text : List Char) (name : String) :
    Indifferent fun a => readMembers text a name :=
  indifferent_foldl (fun body => indifferent_enrich name (declaredMembers body))
    (bodies name text)

theorem Code.indifferent_declareTypes (text : String) :
    Indifferent fun a => declareTypes a text where
  rearranged := by
    intro a x
    unfold declareTypes
    rw [(indifferent_declareAll _ _).rearranged, (indifferent_declareAll _ _).rearranged]

/-- A diagram is put together in the same way for all arrangements. -/
theorem Markup.assemble_rearranged (settings : ReadSettings) (supply : Supply) (text : String)
    (x : Arrangement) : assemble { settings with arrangement := x } supply text =
      (assemble settings supply text).rearranged x := by
  unfold assemble
  dsimp only
  rw [start_rearranged, (indifferent_declareAll _ _).rearranged,
    (indifferent_relateAll _).rearranged]

theorem Code.assemble_rearranged (settings : ReadSettings) (supply : Supply) (text : String)
    (x : Arrangement) : assemble { settings with arrangement := x } supply text =
      (assemble settings supply text).rearranged x := by
  set types := declareTypes (start settings supply) text with htypes
  set related := types.relateAll (relations (interfaceNames types text) text) with hrelated
  -- stage by stage: a stage that is indifferent passes the arrangement on
  have htypes' : declareTypes ((start settings supply).rearranged x) text = types.rearranged x :=
    (indifferent_declareTypes text).rearranged _ x
  have hrelated' : (types.rearranged x).relateAll
      (relations (interfaceNames (types.rearranged x) text) text) = related.rearranged x :=
    (indifferent_relateAll _).rearranged types x
  unfold assemble
  dsimp only
  rw [start_rearranged, htypes', hrelated', ← htypes, ← hrelated]
  exact (indifferent_foldl (indifferent_readMembers text.toList) _).rearranged related x

theorem Dialect.assemble_rearranged (dialect : Dialect) (settings : ReadSettings)
    (supply : Supply) (text : String) (x : Arrangement) :
    dialect.assemble { settings with arrangement := x } supply text =
      (dialect.assemble settings supply text).rearranged x := by
  cases dialect with
  | markup => exact Markup.assemble_rearranged settings supply text x
  | code => exact Code.assemble_rearranged settings supply text x

theorem Dialect.read_eq (dialect : Dialect) (engine : Engine Float) (settings : ReadSettings)
    (supply : Supply) (text : String) : dialect.read engine settings supply text =
      (dialect.assemble settings supply text).finish engine := by
  cases dialect <;> rfl

section

variable (dialect : Dialect) (engine : Engine Float) (settings : ReadSettings) (supply : Supply)
  (text : String)

/-- The stacked reading of a text is always given. -/
theorem Dialect.read_stack :
    dialect.read engine { settings with arrangement := .stack } supply text =
      .ok ((dialect.assemble settings supply text).rearranged .stack) := by
  rw [read_eq, assemble_rearranged, finish, if_neg]
  exact nofun

/-- The layered reading of a text is its stacked reading, laid out. -/
theorem Dialect.read_layered :
    dialect.read engine { settings with arrangement := .layered } supply text =
      ((dialect.assemble settings supply text).diagram.arrangeWith engine settings.layout).map
        fun diagram =>
          { (dialect.assemble settings supply text).rearranged .layered with diagram } := by
  have hsettings : (dialect.assemble settings supply text).settings = settings :=
    (dialect.grows_assemble settings supply text).settings_eq
  rw [read_eq, assemble_rearranged]
  unfold finish
  rw [if_pos (show (rearranged .layered _).settings.arrangement = .layered from rfl)]
  -- the settings of a layout do not contain the arrangement
  show Except.map _ (Diagram.arrangeWith engine
    (dialect.assemble settings supply text).settings.layout _) = _
  rw [hsettings]
  rfl

end

/-! ## The frame of a layout -/

section

variable {K : Type} [Add K] [Sub K] [Neg K] [Div K] [LT K] [DecidableLT K] [LE K] [DecidableLE K]
  [OfNat K 0] [OfNat K 1] [OfNat K 2]

/-- A diagram becomes another one by what a layout draws. -/
structure Diagram.DrawnAnew (d x : Diagram K) : Prop where
  bare_eq : x.bare = d.bare
  length_eq : x.elements.length = d.elements.length
  /-- What is drawn gets a place or a line, and all else stays as it is. -/
  cases : ∀ i e, d.elements[i]? = some e →
    ∃ e', x.elements[i]? = some e' ∧ if d.Redraws i e then e.Redrawn e' else e' = e

theorem drawnAnew_arrangeWith {engine : Engine K} (h : engine.Partitions)
    {settings : LayoutSettings K} {d x : Diagram K}
    (hx : d.arrangeWith engine settings = .ok x) : d.DrawnAnew x where
  bare_eq := bare_arrangeWith hx
  length_eq := by
    have hsame := congrArg List.length (elements_unplaced_arrangeWith hx)
    rwa [List.length_map, List.length_map] at hsame
  cases := by
    intro i e he
    obtain ⟨corners, hplaces, rfl⟩ := arrangeWith_eq_ok_iff.mp hx
    exact redraw_cases (h.cornered hplaces) settings he

/-- **What a layout may touch.** A layout is given exactly if the engine can draw all components of
the diagram; if it is not, the failure names the diagram. A diagram that is laid out keeps its id,
its name and its times, and its elements stay the same ones in the same order. A box that its id
finds gets a place, an arrow between two boxes gets a line, and nothing else of them changes; every
other element stays as it is: boxes behind another element with their id, boxes and arrows of kinds
that are not known, notes, and arrows that have lost an end.

So for every text and any engine, the stacked reading is given, and the layered one exactly if the
engine can draw what was stacked; they have the same rest of the supply, and differ in the places of
boxes and the lines of arrows only. -/
theorem layout_touches_drawn_elements_only (engine : Engine K) (h : engine.Partitions) :
    (∀ (settings : LayoutSettings K) (d : Diagram K),
      ((∃ x, d.arrangeWith engine settings = .ok x) ↔ engine.Draws settings d) ∧
        (∀ failure, d.arrangeWith engine settings = .error failure →
          ∃ cause, failure = .layoutFailed d.id cause) ∧
        ∀ x, d.arrangeWith engine settings = .ok x → d.DrawnAnew x) ∧
    ∀ engine : Engine Float, engine.Partitions →
      ∀ (dialect : Dialect) (settings : ReadSettings) (supply : Supply) (text : String),
        let layeredReading :=
          dialect.read engine { settings with arrangement := .layered } supply text
        ∃ stacked,
          dialect.read engine { settings with arrangement := .stack } supply text = .ok stacked ∧
          ((∃ layered, layeredReading = .ok layered) ↔
            engine.Draws settings.layout stacked.diagram) ∧
          ∀ layered, layeredReading = .ok layered →
            stacked.diagram.arrangeWith engine settings.layout = .ok layered.diagram ∧
              stacked.diagram.DrawnAnew layered.diagram ∧
              layered.diagram.unplaced = stacked.diagram.unplaced ∧
              layered.supply = stacked.supply := by
  refine ⟨fun settings d => ⟨exists_arrangeWith_iff, fun failure hfailure => ?_,
    fun x hx => drawnAnew_arrangeWith h hx⟩, ?_⟩
  · obtain ⟨_, cause, _, heq⟩ := of_arrangeWith_eq_error hfailure
    exact ⟨cause, heq⟩
  · intro engine hpart dialect settings supply text layeredReading
    refine ⟨_, dialect.read_stack engine settings supply text, ?_, fun layered hlayered => ?_⟩
    · -- a layered reading is given where the layout is
      rw [← exists_arrangeWith_iff]
      simp only [layeredReading, dialect.read_layered engine settings supply text]
      cases hx : Diagram.arrangeWith engine settings.layout
        (dialect.assemble settings supply text).diagram <;> simp [rearranged, hx, Except.map]
    · simp only [layeredReading, dialect.read_layered engine settings supply text] at hlayered
      obtain ⟨x, hx, rfl⟩ := map_eq_ok.mp hlayered
      exact ⟨hx, drawnAnew_arrangeWith hpart hx, unplaced_arrangeWith hx, rfl⟩

end

/-- A diagram in which two boxes have ids that find another element, a box and an arrow are of
unknown kinds, and arrows lead to nothing, to a note and back to their source. -/
def attic : Diagram Int :=
  { id := "d"
    name := "Attic"
    created := 0
    updated := 0
    elements :=
      [.node { id := "1", kind := .classBox, position := none, text := some "Dog" },
       .note { id := "2", text := some "old", position := some ⟨1, 1⟩ },
       .node { id := "2", kind := .classBox, position := some ⟨7, 7⟩, text := some "Cat" },
       .node { id := "1", kind := .interfaceBox, position := some ⟨5, 5⟩, text := some "Pet" },
       .node { id := "5", kind := .classBox, position := some ⟨0, 0⟩, size := some ⟨20, 10⟩ },
       .node { id := "6", kind := .other "enum", position := some ⟨2, 3⟩ },
       .arrow { id := "7", kind := .inheritance, source := "1", target := "5" },
       .arrow { id := "8", kind := .dependency, source := "1", target := "0", points := some [] },
       .arrow { id := "9", kind := .association, source := "5", target := "5" },
       .arrow { id := "10", kind := .association, source := "1", target := "2" },
       .arrow { id := "11", kind := .other "line", source := "1", target := "5" }] }

theorem layout_touches_drawn_elements_only_attic :
    layeredEngine.Partitions ∧ rowEngine.Partitions ∧
      (attic.elements.mapIdx fun i e => decide (attic.Redraws i e)) =
        [true, false, false, false, true, false, true, false, true, false, false] ∧
      (∀ settings : LayoutSettings Int, ∃ x, attic.arrangeWith rowEngine settings = .ok x ∧
        attic.DrawnAnew x) ∧
      ∃ stacked layered,
        Dialect.code.read layeredEngine {} .tally "class Dog : Pet \x7b\x7d class Pet \x7b\x7d" =
          .ok stacked ∧
        Dialect.code.read layeredEngine { arrangement := .layered } .tally
          "class Dog : Pet \x7b\x7d class Pet \x7b\x7d" = .ok layered ∧
        stacked.diagram.DrawnAnew layered.diagram := by
  have hpart := partitions_layeredEngine
  obtain ⟨hdrawn, hread⟩ := layout_touches_drawn_elements_only rowEngine partitions_rowEngine
  obtain ⟨stacked, hstacked, hdraws, hlayered⟩ := hread layeredEngine hpart .code {} .tally
    "class Dog : Pet \x7b\x7d class Pet \x7b\x7d"
  obtain ⟨layered, hok⟩ := hdraws.mpr (Engine.draws_of_total (fun _ _ => ⟨_, rfl⟩) _ _)
  refine ⟨hpart, partitions_rowEngine, by decide +kernel, fun settings => ?_, stacked, layered,
    hstacked, hok, (hlayered layered hok).2.1⟩
  obtain ⟨x, hx⟩ := (hdrawn settings attic).1.mpr (draws_rowEngine settings attic)
  exact ⟨x, hx, (hdrawn settings attic).2.2 x hx⟩

end ClassAtlas
