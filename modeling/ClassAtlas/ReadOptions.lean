import ClassAtlas.Failure
import ClassAtlas.Layout.Settings

/-!
# Options of reading

How a diagram that is read from a text is named, and where its boxes are put. Every option has a
default; a caller gives the ones that differ.
-/

namespace ClassAtlas

/-- How the boxes of a diagram that is read are arranged. -/
inductive Arrangement where
  /-- One below the other, in the order of their declaration. -/
  | stack
  /-- By the layered layout. -/
  | layered
  /-- An arrangement that is not known, which leaves the boxes stacked. -/
  | other (word : String)
deriving Repr, DecidableEq

/-- The arrangement that a word names. -/
def Arrangement.ofWord (word : String) : Arrangement :=
  if word = "stack" then .stack else if word = "layered" then .layered else .other word

/-- The word for an arrangement. -/
def Arrangement.word : Arrangement → String
  | .stack => "stack"
  | .layered => "layered"
  | .other word => word

/-- The options that a caller gives. -/
structure ReadOptions where
  diagramName : Option String := none
  baseY : Option Float := none
  stepY : Option Float := none
  classX : Option Float := none
  interfaceX : Option Float := none
  nodeWidth : Option Float := none
  nodeHeight : Option Float := none
  arrangement : Option Arrangement := none
  nodeSpacing : Option Float := none
  layerSpacing : Option Float := none
  padding : Option Float := none

/-- The options in force. -/
structure ReadSettings where
  diagramName : String := "Imported Diagram"
  /-- The vertical place of the first box. -/
  baseY : Float := 100
  /-- The vertical distance between boxes. -/
  stepY : Float := 150
  /-- The column of the classes. -/
  classX : Float := 200
  /-- The column of the interfaces. -/
  interfaceX : Float := 500
  nodeWidth : Float := 150
  nodeHeight : Float := 100
  arrangement : Arrangement := .stack
  /-- The distance between boxes of one layer. -/
  nodeSpacing : Float := 40
  layerSpacing : Float := 60
  /-- The free space above and to the left of a laid out diagram. -/
  padding : Float := 40

/-- The settings that given options amount to. -/
def ReadOptions.settings (o : ReadOptions) : ReadSettings :=
  let d : ReadSettings := {}
  { diagramName := o.diagramName.getD d.diagramName
    baseY := o.baseY.getD d.baseY
    stepY := o.stepY.getD d.stepY
    classX := o.classX.getD d.classX
    interfaceX := o.interfaceX.getD d.interfaceX
    nodeWidth := o.nodeWidth.getD d.nodeWidth
    nodeHeight := o.nodeHeight.getD d.nodeHeight
    arrangement := o.arrangement.getD d.arrangement
    nodeSpacing := o.nodeSpacing.getD d.nodeSpacing
    layerSpacing := o.layerSpacing.getD d.layerSpacing
    padding := o.padding.getD d.padding }

/-- What the layered layout is told. -/
def ReadSettings.layout (s : ReadSettings) : LayoutSettings Float :=
  { boxSize := ⟨s.nodeWidth, s.nodeHeight⟩
    boxGap := s.nodeSpacing
    layerGap := s.layerSpacing
    padding := s.padding }

/-- The value of a single option. -/
inductive OptionValue where
  | text (value : String)
  | number (value : Float)

/-- The value of the option with a given key. -/
def ReadSettings.value (s : ReadSettings) (key : String) : Except Failure OptionValue :=
  match key with
  | "diagram_name" => .ok (.text s.diagramName)
  | "base_y" => .ok (.number s.baseY)
  | "step_y" => .ok (.number s.stepY)
  | "class_x" => .ok (.number s.classX)
  | "interface_x" => .ok (.number s.interfaceX)
  | "node_width" => .ok (.number s.nodeWidth)
  | "node_height" => .ok (.number s.nodeHeight)
  | "layout" => .ok (.text s.arrangement.word)
  | "node_spacing" => .ok (.number s.nodeSpacing)
  | "layer_spacing" => .ok (.number s.layerSpacing)
  | "padding" => .ok (.number s.padding)
  | _ => .error (.unknownOption key)

end ClassAtlas
