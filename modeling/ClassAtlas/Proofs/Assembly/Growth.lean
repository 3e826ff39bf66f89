import ClassAtlas.Proofs.Assembly
import ClassAtlas.Proofs.Layout.Drawing
import ClassAtlas.Proofs.Supply

/-!
# How an assembly grows

A diagram that is put together keeps its id, its name and its times. Elements are added at the end
under the next ids of the supply, and whatever else is done to them leaves their ids as they are. So
the ids of a finished diagram are a stretch of those of the supply.

At last the boxes may be moved by an engine. This is the only step that may fail, and only when the
boxes are to be arranged in layers and the engine cannot draw a component.
-/

namespace ClassAtlas

/-- What is made with an engine is an assembly with some property; or else the boxes are to be
arranged in layers, and there is something that the engine cannot draw. -/
inductive Engine.Gives (engine : Engine Float) (settings : ReadSettings) (P : Assembly → Prop) :
    Except Failure Assembly → Prop
  | made {a : Assembly} (h : P a) : Gives engine settings P (.ok a)
  | failed {chart : Chart Float} {cause : String} (hlayered : settings.arrangement = .layered)
    (h : engine.drawing settings.layout chart = .error cause) (diagram : String) :
    Gives engine settings P (.error (.layoutFailed diagram cause))

section

variable {engine : Engine Float} {settings : ReadSettings} {P Q : Assembly → Prop}
  {result : Except Failure Assembly}

theorem Engine.Gives.of_eq_ok (h : engine.Gives settings P result) {a : Assembly}
    (hresult : result = .ok a) : P a := by
  subst hresult
  cases h with
  | made ha => exact ha

theorem Engine.Gives.imp (h : engine.Gives settings P result)
    (himp : ∀ a, result = .ok a → P a → Q a) : engine.Gives settings Q result := by
  cases h with
  | made ha => exact .made (himp _ rfl ha)
  | failed hlayered hdraw diagram => exact .failed hlayered hdraw diagram

/-- Where boxes are not arranged in layers, there always is an assembly. -/
theorem Engine.Gives.exists_ok (h : engine.Gives settings P result)
    (hstack : settings.arrangement ≠ .layered) : ∃ a, result = .ok a ∧ P a := by
  cases h with
  | made ha => exact ⟨_, rfl, ha⟩
  | failed hlayered => exact absurd hlayered hstack

end

namespace Assembly

variable {a b c : Assembly}

/-! ## New elements -/

/-- An assembly becomes another one by elements under the next ids. -/
structure Grows (a b : Assembly) : Prop where
  settings_eq : b.settings = a.settings
  header : b.diagram.bare = a.diagram.bare
  added : ∃ n, b.supply = a.supply.afterIds n ∧ b.diagram.ids = a.diagram.ids ++ a.supply.nextIds n

theorem Grows.of_ids (hsettings : b.settings = a.settings) (hd : b.diagram.bare = a.diagram.bare)
    (hids : b.diagram.ids = a.diagram.ids) (hs : b.supply = a.supply) : a.Grows b where
  settings_eq := hsettings
  header := hd
  added := ⟨0, hs, by rw [hids, Supply.nextIds_zero, List.append_nil]⟩

theorem Grows.refl (a : Assembly) : a.Grows a := .of_ids rfl rfl rfl rfl

theorem Grows.trans (h : a.Grows b) (h' : b.Grows c) : a.Grows c where
  settings_eq := h'.settings_eq.trans h.settings_eq
  header := h'.header.trans h.header
  added := by
    obtain ⟨m, hm, hids⟩ := h.added
    obtain ⟨n, hn, hids'⟩ := h'.added
    refine ⟨m + n, ?_, ?_⟩
    · rw [hn, hm, Supply.afterIds_afterIds]
    · rw [hids', hids, hm, Supply.nextIds_add, List.append_assoc]

theorem grows_add {f : String → Element Float} (hf : (f a.supply.nextId).id = a.supply.nextId) :
    a.Grows (a.add f) where
  settings_eq := rfl
  header := rfl
  added := by
    refine ⟨1, rfl, ?_⟩
    show (a.diagram.elements ++ [f a.supply.nextId]).map Element.id = _
    rw [List.map_append, List.map_singleton, hf]
    rfl

theorem grows_declare (a : Assembly) (name : String) (kind : NodeKind) :
    a.Grows (a.declare name kind).2 := by
  by_cases hmem : name ∈ a.names
  · rw [declare_of_mem hmem]
    exact .refl a
  · rw [declare_of_not_mem hmem]
    have hadd : a.Grows (a.add (.node <| a.newNode name kind ·)) := grows_add rfl
    exact ⟨rfl, hadd.header, hadd.added⟩

theorem grows_relate (a : Assembly) (r : Relation) : a.Grows (a.relate r).2 := by
  unfold relate
  split
  · rename_i source target _ _
    exact grows_add (f := (.arrow <| newArrow source target r.kind ·)) rfl
  · exact .refl a

theorem grows_enrich (a : Assembly) (name : String) (members : Members) :
    a.Grows (a.enrich name members) := by
  -- one element is exchanged, for one of the same id
  have hids (place : Nat) : (a.diagram.elements.modify place (withMembers members)).map Element.id =
      a.diagram.elements.map Element.id := by
    refine List.ext_getElem? fun i => ?_
    rw [List.getElem?_map, List.getElem?_modify, List.getElem?_map, Option.map_eq_map,
      Option.map_map]
    refine congrArg (Option.map · _) (funext fun e => ?_)
    split
    · exact withMembers_id members e
    · rfl
  unfold enrich
  split
  · split
    · exact .refl a
    · exact .of_ids rfl rfl (hids _) rfl
  · exact .refl a

/-- Steps that let an assembly grow do so when they are taken one after the other. -/
theorem grows_foldl {α : Type} {f : Assembly → α → Assembly} (hf : ∀ a x, Grows a (f a x))
    (a : Assembly) (xs : List α) : a.Grows (xs.foldl f a) := by
  induction xs generalizing a with
  | nil => exact .refl a
  | cons x xs ih => exact (hf a x).trans (ih (f a x))

/-! ## Moved boxes -/

/-- An assembly becomes another one by boxes that are moved and arrows that are drawn. -/
structure Moves (a b : Assembly) : Prop where
  settings_eq : b.settings = a.settings
  places_eq : b.places = a.places
  supply_eq : b.supply = a.supply
  unplaced_eq : b.diagram.unplaced = a.diagram.unplaced

theorem Moves.refl (a : Assembly) : a.Moves a := ⟨rfl, rfl, rfl, rfl⟩

theorem Moves.sound (h : a.Moves b) (ha : a.Sound) : b.Sound :=
  ha.of_unplaced h.supply_eq h.places_eq (congrArg Diagram.elements h.unplaced_eq)

theorem Moves.sketch_eq (h : a.Moves b) : b.diagram.sketch = a.diagram.sketch := by
  rw [← sketch_unplaced, h.unplaced_eq, sketch_unplaced]

theorem Moves.grows (h : a.Moves b) : a.Grows b := by
  refine .of_ids h.settings_eq ?_ ?_ h.supply_eq
  · show b.diagram.unplaced.bare = a.diagram.unplaced.bare
    rw [h.unplaced_eq]
  · rw [← Diagram.ids_unplaced, h.unplaced_eq, Diagram.ids_unplaced]

/-- **Finishing an assembly** moves boxes and draws arrows. -/
theorem gives_finish (engine : Engine Float) (a : Assembly) :
    engine.Gives a.settings a.Moves (a.finish engine) := by
  unfold finish
  split
  · rename_i hlayered
    cases hx : a.diagram.arrangeWith engine a.settings.layout with
    | ok x => exact .made ⟨rfl, rfl, rfl, unplaced_arrangeWith hx⟩
    | error failure =>
      obtain ⟨c, cause, hcause, rfl⟩ := of_arrangeWith_eq_error hx
      exact .failed hlayered hcause a.diagram.id
  · -- boxes in a stack stand already
    exact .made (.refl a)

/-- What has grown from a start is finished by the settings of the start. -/
theorem Grows.gives_finish {settings : ReadSettings} {supply : Supply}
    (h : (start settings supply).Grows a) (engine : Engine Float) :
    engine.Gives settings a.Moves (a.finish engine) := by
  have hfinish := Assembly.gives_finish engine a
  rwa [h.settings_eq] at hfinish

end Assembly

end ClassAtlas
