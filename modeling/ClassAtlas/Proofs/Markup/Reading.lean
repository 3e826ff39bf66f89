import ClassAtlas.Markup.Reader
import ClassAtlas.Proofs.Assembly.Growth
import ClassAtlas.Proofs.Declared

/-!
# What a reading of the markup says

The sketch of the diagram that is read from a text: a class for every declared name, and an arrow
for every relation statement between declared names.
-/

namespace ClassAtlas.Markup

open Text

/-- The relations that a text states. -/
def relationsOf (text : String) : List Relation := (relationStatements text).map (·.relation)

/-- The relations between declared names. -/
def relationsIn (text : String) : List Relation :=
  (relationsOf text).filter fun r =>
    decide (r.source ∈ declaredNames "class" text ∧ r.target ∈ declaredNames "class" text)

/-- What a text says: a class for every declared name, and the relations between them. -/
def sketchIn (text : String) : List Shape :=
  ((declaredNames "class" text).map fun name => .box .classBox name {}) ++
    (relationsIn text).map Relation.shape

variable {engine : Engine Float} {settings : ReadSettings} {supply : Supply}

theorem isKnown_symbolKind (symbol : String) : (symbolKind symbol).isKnown = true := by
  unfold symbolKind
  repeat' split
  all_goals rfl

theorem isKnown_of_mem_relationsOf {text : String} {r : Relation} (h : r ∈ relationsOf text) :
    r.kind.isKnown = true := by
  obtain ⟨s, _, rfl⟩ := List.mem_map.mp h
  exact isKnown_symbolKind s.symbol

theorem names_declared (text : String) :
    ((Assembly.start settings supply).declareAll .classBox (declaredNames "class" text)).names
      = declaredNames "class" text := by
  rw [Assembly.names_declareAll _ _ (nodup_declaredNames _ _)]
  simp [Assembly.names, Assembly.start]

/-- An assembly with the declared names knows the relations between them and no others. -/
theorem relationsIn_eq (settings : ReadSettings) (supply : Supply) (text : String) :
    relationsIn text = (relationsOf text).filter fun r => decide (Assembly.Knows
      ((Assembly.start settings supply).declareAll .classBox (declaredNames "class" text)) r) := by
  refine List.filter_congr ?_
  intro r _
  refine decide_eq_decide.mpr ?_
  unfold Assembly.Knows
  rw [names_declared]

/-- A reading is determined by the declared names and the relations between them. -/
theorem assemble_eq (settings : ReadSettings) (supply : Supply) (text : String) :
    assemble settings supply text = ((Assembly.start settings supply).declareAll .classBox
      (declaredNames "class" text)).relateAll (relationsIn text) := by
  rw [relationsIn_eq settings supply, Assembly.relateAll_filter]
  rfl

theorem grows_assemble (settings : ReadSettings) (supply : Supply) (text : String) :
    (Assembly.start settings supply).Grows (assemble settings supply text) := by
  unfold assemble
  refine .trans ?_ (Assembly.grows_foldl Assembly.grows_relate _ _)
  exact Assembly.grows_foldl (fun a name => Assembly.grows_declare a name _) _ _

theorem sound_assemble (hid : Function.Injective supply.idAt) (text : String) :
    (assemble settings supply text).Sound := by
  have h0 := Assembly.sound_start settings hid
  have h1 := Assembly.sound_declareAll h0 (ne_empty_of_mem_declaredNames "class" text)
    (show NodeKind.isKnown .classBox = true from rfl)
  exact Assembly.sound_relateAll h1 fun r hr => isKnown_of_mem_relationsOf hr

theorem sketch_assemble (hid : Function.Injective supply.idAt) (text : String) :
    (assemble settings supply text).diagram.sketch = sketchIn text := by
  have h0 := Assembly.sound_start settings hid
  have hne := ne_empty_of_mem_declaredNames "class" text
  have h1 := Assembly.sound_declareAll h0 hne (show NodeKind.isKnown .classBox = true from rfl)
  have hstart : (Assembly.start settings supply).names = [] := rfl
  rw [assemble_eq, relationsIn_eq settings supply, Assembly.relateAll_filter,
    Assembly.sketch_relateAll h1 fun r hr => isKnown_of_mem_relationsOf hr,
    Assembly.sketch_declareAll h0 (nodup_declaredNames _ _) hne rfl, hstart, sketchIn,
    relationsIn_eq settings supply]
  simp [Assembly.start, Diagram.sketch]

/-- What is read is what was put together, with its boxes moved. -/
theorem gives_moved (engine : Engine Float) (settings : ReadSettings) (supply : Supply)
    (text : String) : engine.Gives settings (assemble settings supply text).Moves
      (read engine settings supply text) :=
  (grows_assemble settings supply text).gives_finish engine

/-- **What a reading says, for every text.** -/
theorem gives_sketch (engine : Engine Float) (settings : ReadSettings)
    (hid : Function.Injective supply.idAt) (text : String) :
    engine.Gives settings (fun a => a.diagram.sketch = sketchIn text)
      (read engine settings supply text) :=
  (gives_moved engine settings supply text).imp fun _ _ ha =>
    ha.sketch_eq.trans (sketch_assemble hid text)

end ClassAtlas.Markup
