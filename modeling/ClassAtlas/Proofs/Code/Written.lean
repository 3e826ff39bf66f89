import ClassAtlas.Code.Writer
import ClassAtlas.Proofs.Code.Source
import ClassAtlas.Proofs.Diagram.MemberLines
import ClassAtlas.Proofs.Diagram.Sketch
import ClassAtlas.Proofs.Text.Lines

/-!
# What is written of a diagram

Less of a diagram is written than it says: the labels, the names in member lines, the first parent
and the interfaces of a class. So what is written is told by the boxes, cut down to names, and the
relations of the diagram, and two diagrams that agree on these have the same text.
-/

namespace ClassAtlas.Code

open Text

variable {K : Type}

/-! ## Boxes -/

/-- A box as it is written. -/
structure Box where
  isInterface : Bool
  label : String
  attributes : List String
  methods : List String
deriving Repr, DecidableEq

/-- What is written of a box: the names of its members, but no attributes of an interface. -/
def Box.of (kind : NodeKind) (label : String) (members : Members) : Box :=
  { isInterface := decide (kind = .interfaceBox)
    label
    attributes :=
      if kind = .interfaceBox then [] else members.attributes.filterMap memberName?
    methods := members.methods.filterMap memberName? }

/-- The box of a shape that is written. -/
def box? : Shape → Option Box
  | .box kind label members =>
    if kind.isKnown = true ∧ label ≠ "" then some (.of kind label members) else none
  | _ => none

/-- The boxes of a diagram that are written, in order. -/
def boxes (d : Diagram K) : List Box := d.sketch.filterMap box?

theorem boxes_eq (d : Diagram K) :
    boxes d = d.labelledNodes.map fun n => .of n.kind n.label (n.members.getD {}) := by
  unfold boxes Diagram.labelledNodes Diagram.nodes Diagram.sketch
  rw [List.filterMap_map, List.filter_filterMap, List.map_filterMap]
  refine congrArg (List.filterMap · d.elements) (funext ?_)
  intro e
  cases e with
  | arrow a => rfl
  | note t => rfl
  | node n =>
    show (if n.kind.isKnown = true ∧ n.label ≠ "" then _ else none) = _
    cases hk : n.kind.isKnown <;> by_cases hl : n.label = "" <;>
      simp [Element.node?, hk, hl, Option.filter]

theorem map_label_boxes (d : Diagram K) : (boxes d).map Box.label = d.labels := by
  rw [boxes_eq, List.map_map, ← map_label_labelledNodes]
  rfl

/-- The names of members are identifiers, since member lines are read that way. -/
theorem isIdentifier_of_memberName? {line name : String} (h : memberName? line = some name) :
    isIdentifier name.toList = true := by
  obtain ⟨m, hm, rfl⟩ := Option.map_eq_some_iff.mp h
  unfold MemberLine.parse? MemberLine.ofChars? at hm
  simp only [Option.bind_eq_bind, Option.bind_eq_some_iff] at hm
  obtain ⟨⟨word, s⟩, _, hm⟩ := hm
  dsimp only at hm
  split at hm
  · exact absurd hm (by simp)
  · -- methods and attributes go on differently, but the name has been checked before
    rename_i hid
    have hword : isIdentifier word = true := by simpa using hid
    obtain ⟨t, _, hm⟩ := Option.bind_eq_some_iff.mp hm
    split at hm
    · obtain rfl := Option.some.inj hm
      rwa [String.toList_ofList]
    · obtain ⟨type, _, hm⟩ := Option.bind_eq_some_iff.mp hm
      obtain rfl := Option.some.inj hm
      rwa [String.toList_ofList]
    · exact absurd hm (by simp)

/-- The name in a member line that was put together from a mark, a name and a type: it is found if
it is an identifier and the type can be read. -/
theorem memberName?_memberLine {mark name type : String} (hmark : mark ∈ ["+", "-", "#", "~"])
    (hname : IsWord name.toList) :
    memberName? (memberLine mark name type) =
      if isIdentifier name.toList then
        (MemberLine.typeText (' ' :: type.toList)).map fun _ => name
      else none := by
  have hread := MemberLine.parse?_line hmark hname .plain type
  have htype : LineSpacing.plain.behindColon.1 ++ (type.toList ++ LineSpacing.plain.behind.1) =
      ' ' :: type.toList := congrArg (' ' :: ·) (List.append_nil _)
  unfold memberName?
  rw [← LineSpacing.line_plain, hread, htype]
  cases hid : isIdentifier name.toList with
  | false => rfl
  | true =>
    rw [if_pos rfl, if_pos rfl, Option.map_map]
    rfl

/-! ## Relations -/

/-- The labels that relations of a kind lead to from a given one. -/
def targetsIn (rs : List Relation) (kind : ArrowKind) (label : String) : List String :=
  rs.filterMap fun r => if r.kind = kind ∧ r.source = label then some r.target else none

/-- The bases of a class: one parent, the first, and every interface once. -/
def basesIn (rs : List Relation) (label : String) : List String :=
  (targetsIn rs .inheritance label).take 1 ++ (targetsIn rs .implementation label).eraseDups

/-- The comment for a relation that no declaration can express. -/
def commentLine? (r : Relation) : Option String :=
  let verb := match r.kind with
    | .dependency => some "depends on"
    | .association => some "is associated with"
    | _ => none
  verb.map fun verb => "// " ++ r.source ++ " " ++ verb ++ " " ++ r.target

theorem targets_eq (d : Diagram K) (kind : ArrowKind) (label : String) :
    targets d kind label = targetsIn d.relations kind label := by
  unfold targets targetsIn Diagram.relations
  rw [List.filterMap_filterMap, List.filterMap_filterMap]
  refine congrArg (List.filterMap · d.arrows) (funext ?_)
  intro a
  unfold labelsOf Diagram.endLabels?
  cases d.ends? a with
  | none => by_cases hk : a.kind = kind <;> simp [hk]
  | some ends =>
    by_cases hk : a.kind = kind
    · simp [hk]
    · simp [hk]

theorem bases_eq (d : Diagram K) (label : String) : bases d label = basesIn d.relations label := by
  unfold bases basesIn
  rw [targets_eq, targets_eq]

theorem comments_eq (d : Diagram K) :
    d.arrows.filterMap (comment? d) = d.relations.filterMap commentLine? := by
  unfold Diagram.relations
  rw [List.filterMap_filterMap]
  refine congrArg (List.filterMap · d.arrows) (funext ?_)
  intro a
  unfold comment? Diagram.endLabels?
  cases d.ends? a with
  | none => cases a.kind <;> rfl
  | some ends => cases hk : a.kind <;> simp [commentLine?]

/-! ## Lines -/

/-- The lines of a box with given bases. -/
def Box.lines (bases : List String) (b : Box) : List String :=
  if b.isInterface then
    ["public interface " ++ b.label, "\x7b"] ++
      b.methods.map (fun name => "    public void " ++ name ++ "();") ++ ["\x7d"]
  else
    [classHeader b.label bases, "\x7b"] ++
      (b.attributes.map propertyLine ++
        if b.attributes = [] then [""].intercalate (b.methods.map methodLines)
        else (b.methods.map methodLines).flatMap ("" :: ·)) ++ ["\x7d"]

theorem nodeLines_eq_box (d : Diagram K) (n : Node K) :
    nodeLines d n =
      (Box.of n.kind n.label (n.members.getD {})).lines (basesIn d.relations n.label) := by
  unfold nodeLines
  rw [bases_eq]
  by_cases hk : n.kind = .interfaceBox
  · cases hm : n.members <;> simp [hk, hm, Box.of, Box.lines, interfaceLines, List.map_filterMap]
  · cases hm : n.members with
    | none => simp [hk, hm, Box.of, Box.lines, classLines]
    | some m => simp [hk, hm, Box.of, Box.lines, classLines, bodyLines]

/-- What is written is told by the boxes and the relations. -/
theorem blocks_eq (d : Diagram K) :
    blocks d = (boxes d).map (fun b => b.lines (basesIn d.relations b.label)) ++
      if d.relations.filterMap commentLine? = [] then []
      else [d.relations.filterMap commentLine?] := by
  unfold blocks
  rw [comments_eq, boxes_eq, List.map_map]
  refine congrArg (· ++ _) (List.map_congr_left ?_)
  intro n _
  exact nodeLines_eq_box d n

/-- Diagrams with the same boxes, bases of classes and comments have the same text. -/
theorem write_congr {L : Type} {d : Diagram K} {d' : Diagram L} (hboxes : boxes d = boxes d')
    (hbases : ∀ b ∈ boxes d, b.isInterface = false →
      basesIn d.relations b.label = basesIn d'.relations b.label)
    (hcomments : d.relations.filterMap commentLine? = d'.relations.filterMap commentLine?) :
    write d = write d' := by
  unfold write
  rw [blocks_eq, blocks_eq, hcomments, ← hboxes]
  refine congrArg (fun bs => unlines ([""].intercalate (bs ++ _))) ?_
  refine List.map_congr_left ?_
  intro b hb
  cases hkind : b.isInterface with
  | true =>
    unfold Box.lines
    rw [if_pos hkind, if_pos hkind]
  | false => rw [hbases b hb hkind]

end ClassAtlas.Code
