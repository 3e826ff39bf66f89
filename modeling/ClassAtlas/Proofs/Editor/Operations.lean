import ClassAtlas.Editor.Command
import Mathlib.Tactic.Common

/-!
# What the operations of an editor do to a desk

One equation for every operation: its result, and the desk that it leaves. Operations that look and
refuse leave the desk as it was; what has been taken or saved before a refusal stays so, which is
why an operation looks first. Only a reading cannot: it takes ids and times for what it puts
together, and then the engine may be unable to draw it.
-/

namespace ClassAtlas

/-- The result of an operation on a desk, and the desk after it. -/
def Edit.runOn {α : Type} (op : Edit α) (desk : Desk) : Except Failure α × Desk := op.run.run desk

/-- The desk after an id has been taken. -/
def Desk.afterId (desk : Desk) : Desk := { desk with supply := desk.supply.afterId }

/-- The desk after a diagram has been saved. -/
def Desk.saved (desk : Desk) (d : Diagram Float) : Desk :=
  { desk with
    archive := desk.archive.put d.id { d with updated := desk.supply.now }
    supply := desk.supply.afterTime }

namespace Edit

variable {α β : Type} {desk : Desk}

/-! ## Sequences -/

@[simp] theorem runOn_pure (a : α) (desk : Desk) : (pure a : Edit α).runOn desk = (.ok a, desk) :=
  rfl

@[simp] theorem runOn_bind (op : Edit α) (next : α → Edit β) (desk : Desk) :
    (op >>= next).runOn desk = match op.runOn desk with
      | (.ok a, desk') => (next a).runOn desk'
      | (.error failure, desk') => (.error failure, desk') := by
  show (ExceptT.bindCont next (op.runOn desk).1).run (op.runOn desk).2 = _
  cases op.runOn desk with
  | mk result desk' => cases result <;> rfl

@[simp] theorem runOn_map (f : α → β) (op : Edit α) (desk : Desk) :
    (f <$> op).runOn desk = ((op.runOn desk).1.map f, (op.runOn desk).2) := by
  rw [map_eq_pure_bind, runOn_bind]
  cases op.runOn desk with
  | mk result desk' => cases result <;> rfl

@[simp] theorem runOn_ofExcept (result : Except Failure α) (desk : Desk) :
    (ofExcept result).runOn desk = (result, desk) := by
  cases result <;> rfl

/-! ## Steps -/

@[simp] theorem runOn_get (desk : Desk) : (get : Edit Desk).runOn desk = (.ok desk, desk) := rfl

@[simp] theorem runOn_set (new desk : Desk) : (set new : Edit Unit).runOn desk = (.ok (), new) :=
  rfl

@[simp] theorem runOn_takeId (desk : Desk) :
    takeId.runOn desk = (.ok desk.supply.nextId, desk.afterId) := rfl

@[simp] theorem runOn_save (d : Diagram Float) (desk : Desk) :
    (save d).runOn desk = (.ok { d with updated := desk.supply.now }, desk.saved d) := rfl

theorem runOn_load (id : String) (desk : Desk) :
    (load id).runOn desk = match desk.archive.find? id with
      | some d => (.ok d, desk)
      | none => (.error (.noDiagram id), desk) := by
  show Edit.runOn (match desk.archive.find? id with
    | some d => pure d
    | none => refuse (.noDiagram id)) desk = _
  cases desk.archive.find? id <;> rfl

theorem runOn_require (d : Diagram Float) (diagram element : String) (desk : Desk) :
    (require d diagram element).runOn desk =
      if (d.find? element).isSome then (.ok (), desk)
      else (.error (.noElement diagram element), desk) := by
  unfold require
  split <;> rfl

/-! ## Operations -/

theorem runOn_create (name : String) (desk : Desk) :
    (create name).runOn desk =
      let d : Diagram Float :=
        { id := desk.supply.nextId
          name
          created := desk.supply.now
          updated := desk.supply.afterTime.afterTime.now }
      (.ok d,
        { desk with
          archive := desk.archive.put d.id d
          supply := desk.supply.afterId.afterTime.afterTime.afterTime }) := rfl

/-- An element that is new to a diagram is added, and the diagram is saved. -/
theorem runOn_add {d changed : Diagram Float} {element : String → Element Float}
    (h : d.insert (element desk.supply.nextId) = .ok changed) :
    (add d element).runOn desk =
      (.ok (element desk.supply.nextId), desk.afterId.saved changed) := by
  unfold add
  simp only [runOn_bind, runOn_takeId, h, runOn_ofExcept, runOn_save, runOn_pure]

/-- A reading first takes what it needs from the supply, and then the engine may fail. -/
theorem runOn_readText (text : String) (dialect : Option String) (settings : ReadSettings)
    (desk : Desk) :
    (readText text dialect settings).runOn desk =
      match Catalogue.standard.choose dialect text with
      | .error failure => (.error failure, desk)
      | .ok found =>
        let a := found.assemble settings desk.supply text
        match a.finish desk.engine with
        | .error failure => (.error failure, { desk with supply := a.supply })
        | .ok b => (.ok { b.diagram with updated := a.supply.now },
            Desk.saved { desk with supply := a.supply } b.diagram) := by
  unfold readText
  simp only [runOn_bind, runOn_ofExcept]
  cases Catalogue.standard.choose dialect text with
  | error failure => rfl
  | ok found =>
    simp only [runOn_get, runOn_set]
    cases (found.assemble settings desk.supply text).finish desk.engine with
    | error failure => rfl
    | ok b => simp only [runOn_save]

end Edit

theorem Desk.step_eq (desk : Desk) (command : Command) :
    desk.step command = command.run.runOn desk := rfl

end ClassAtlas
