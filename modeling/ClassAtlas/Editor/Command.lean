import ClassAtlas.Editor.Desk

/-!
# Commands

The operations of an editor as data, so that a run of an editor is a list of commands.
-/

namespace ClassAtlas

/-- An operation of an editor. -/
inductive Command where
  | create (name : String)
  | get (diagram : String)
  | addNode (diagram kind : String) (position : Point Float) (size : Option (Size Float))
      (text : Option String)
  | connect (diagram source target kind : String)
  | annotate (diagram : String) (position : Point Float) (text : String)
  | update (diagram element : String) (values : NamedValues Float)
  | remove (diagram element : String)
  | readText (text : String) (dialect : Option String) (settings : ReadSettings)
  | writeText (diagram dialect : String)

/-- What an operation gives back. -/
inductive Answer where
  | diagram (d : Diagram Float)
  | element (e : Element Float)
  | text (s : String)
  | nothing

/-- Carries a command out. -/
def Command.run : Command → Edit Answer
  | .create name => .diagram <$> Edit.create name
  | .get diagram => .diagram <$> Edit.load diagram
  | .addNode diagram kind position size text =>
    .element <$> Edit.addNode diagram kind position size text
  | .connect diagram source target kind => .element <$> Edit.connect diagram source target kind
  | .annotate diagram position text => .element <$> Edit.annotate diagram position text
  | .update diagram element values => .element <$> Edit.update diagram element values
  | .remove diagram element => (fun _ => .nothing) <$> Edit.remove diagram element
  | .readText text dialect settings => .diagram <$> Edit.readText text dialect settings
  | .writeText diagram dialect => .text <$> Edit.writeText diagram dialect

/-- The desk after a command, and its answer or the reason why it was refused. -/
def Desk.step (desk : Desk) (command : Command) : Except Failure Answer × Desk :=
  command.run.run.run desk

/-- The desk after a list of commands, refused ones included. -/
def Desk.run (desk : Desk) (commands : List Command) : Desk :=
  commands.foldl (fun desk command => (desk.step command).2) desk

end ClassAtlas
