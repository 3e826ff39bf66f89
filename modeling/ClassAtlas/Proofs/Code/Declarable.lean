import ClassAtlas.Proofs.Code.WrittenSource

/-!
# Diagrams that declarations can express

A diagram is *declarable* if its text says what the diagram says about its classes and interfaces.
Labels have to be words, each of them once. The parent of a class has to be a class that is not
named like an interface, and what a class implements an interface or a class that is named like
one. Both stand in base lists, so they have to be names that a base list can hold. Arrows that
become comments must not have a keyword at an end, since a comment is read like any other text.
-/

namespace ClassAtlas.Code

open Text

variable {K : Type}

/-- The labels of the boxes of a sort, in order. -/
def labelsIn (d : Diagram K) (sort : TypeSort) : List String :=
  ((boxes d).filter fun b => b.sort = sort).map Box.label

/-- What is written of a diagram can be read back. -/
structure Declarable (d : Diagram K) : Prop where
  labels : ∀ label ∈ d.labels, IsWord label.toList
  nodup : d.labels.Nodup
  parents : ∀ r ∈ d.relations, r.kind = .inheritance → r.source ∈ labelsIn d .classType →
    r.target ∈ labelsIn d .classType ∧ isInterfaceName r.target = false
  interfaces : ∀ r ∈ d.relations, r.kind = .implementation → r.source ∈ labelsIn d .classType →
    r.target ∈ labelsIn d .interfaceType ∨ isInterfaceName r.target = true
  bases : ∀ r ∈ d.relations, r.kind = .inheritance ∨ r.kind = .implementation →
    isIdentifier r.target.toList = true ∧ r.target ≠ "where"
  comments : ∀ r ∈ d.relations, (commentLine? r).isSome = true →
    r.source.toList ∉ typeWords ∧ r.target.toList ∉ typeWords

/-! ## Boxes -/

variable {d : Diagram K}

theorem label_mem_labels {b : Box} (hb : b ∈ boxes d) : b.label ∈ d.labels := by
  rw [← map_label_boxes]
  exact List.mem_map_of_mem hb

/-- The names in a box are identifiers, since member lines are read that way. -/
theorem isIdentifier_of_mem_box (k : NodeKind) (label : String) (members : Members) :
    ∀ name ∈ (Box.of k label members).attributes ++ (Box.of k label members).methods,
      isIdentifier name.toList = true := by
  have hread {lines : List String} {name : String} (h : name ∈ lines.filterMap memberName?) :
      isIdentifier name.toList = true := by
    obtain ⟨_, _, hline⟩ := List.mem_filterMap.mp h
    exact isIdentifier_of_memberName? hline
  intro name hname
  rcases List.mem_append.mp hname with h | h
  · unfold Box.of at h
    dsimp only at h
    split at h
    · exact absurd h (by simp)
    · exact hread h
  · exact hread h

theorem isWord_of_mem_boxes {b : Box} (hb : b ∈ boxes d) :
    ∀ name ∈ b.attributes ++ b.methods, IsWord name.toList := by
  rw [boxes_eq] at hb
  obtain ⟨n, _, rfl⟩ := List.mem_map.mp hb
  exact fun name hname => isWord_of_isIdentifier (isIdentifier_of_mem_box _ _ _ name hname)

theorem mem_targetsIn {rs : List Relation} {kind : ArrowKind} {label target : String} :
    target ∈ targetsIn rs kind label ↔ ⟨label, target, kind⟩ ∈ rs := by
  unfold targetsIn
  rw [List.mem_filterMap]
  constructor
  · rintro ⟨r, hr, heq⟩
    split at heq
    · rename_i h
      obtain ⟨rfl, rfl⟩ := h
      obtain rfl := Option.some.inj heq
      exact hr
    · exact absurd heq (by simp)
  · exact fun h => ⟨_, h, if_pos ⟨rfl, rfl⟩⟩

theorem of_mem_basesIn {rs : List Relation} {label base : String} (h : base ∈ basesIn rs label) :
    ⟨label, base, .inheritance⟩ ∈ rs ∨ ⟨label, base, .implementation⟩ ∈ rs := by
  rcases List.mem_append.mp h with h | h
  · exact Or.inl (mem_targetsIn.mp (List.mem_of_mem_take h))
  · exact Or.inr (mem_targetsIn.mp (List.mem_eraseDups.mp h))

theorem wellFormed_written (h : Declarable d) :
    (sourceOf (basesIn d.relations) [] (boxes d)).WellFormed := by
  refine wellFormed_sourceOf (by simp) (fun b hb => h.labels _ (label_mem_labels hb))
    (fun b hb => isWord_of_mem_boxes hb) ?_
  intro b _ _ name hname
  rcases of_mem_basesIn hname with hr | hr
  · exact h.bases _ hr (Or.inl rfl)
  · exact h.bases _ hr (Or.inr rfl)

/-! ## The text -/

theorem intercalate_append {α : Type} (sep : List α) {xs : List (List α)} (hxs : xs ≠ [])
    (ys : List (List α)) :
    sep.intercalate (xs ++ ys) = sep.intercalate xs ++ ys.flatMap (sep ++ ·) := by
  cases xs with
  | nil => exact absurd rfl hxs
  | cons x xs =>
    rw [List.cons_append, intercalate_cons, intercalate_cons, List.flatMap_append,
      List.append_assoc]

/-- The lines behind the last declaration: an empty one and the comments, if there are any. -/
def commentLines (rs : List Relation) : List String :=
  if rs.filterMap commentLine? = [] then [] else "" :: rs.filterMap commentLine?

/-- A diagram without boxes has no arrows between labels. -/
theorem relations_of_no_boxes (h : boxes d = []) : d.relations = [] := by
  refine List.eq_nil_iff_forall_not_mem.mpr ?_
  intro r hr
  have hlabels : d.labels = [] := by rw [← map_label_boxes, h, List.map_nil]
  have hsource := (of_mem_relations hr).2.1
  rw [hlabels] at hsource
  exact absurd hsource (by simp)

/-- The text is that of the source, and behind it come a line break and the comments. -/
theorem toList_write (d : Diagram K) :
    (write d).toList = (sourceOf (basesIn d.relations) [] (boxes d)).chars ++
      if boxes d = [] then [] else broken (commentLines d.relations) ++ ['\n'] := by
  unfold write
  rw [toList_unlines, blocks_eq]
  cases hboxes : boxes d with
  | nil =>
    rw [relations_of_no_boxes hboxes]
    rfl
  | cons b bs =>
    have hcomments : (if d.relations.filterMap commentLine? = [] then []
        else [d.relations.filterMap commentLine?]).flatMap ([""] ++ ·) =
        commentLines d.relations := by
      unfold commentLines
      split
      · rfl
      · rw [List.flatMap_singleton]
        rfl
    -- with a break in front, lines that end in breaks are lines that begin with breaks
    refine (List.cons.inj (?_ : '\n' :: _ = '\n' :: _)).2
    rw [charsOf_broken, intercalate_append _ (by simp), hcomments, broken_append,
      ← chars_sourceOf, if_neg (by simp), List.append_assoc, List.cons_append]

/-! ## Comments -/

theorem silent_broken {before : Option Char} {ls : List String} {rest : List Char}
    (hls : ∀ l ∈ ls, ∀ b r, WordEnds r → Silent typeWords b l.toList r) (hr : WordEnds rest) :
    Silent typeWords before (broken ls) rest := by
  induction ls generalizing before with
  | nil => trivial
  | cons l ls ih =>
    have hends : WordEnds (broken ls ++ rest) := by
      cases ls with
      | nil => exact hr
      | cons m ms => exact (by decide : isWord '\n' = false)
    rw [broken_cons]
    refine (silent_mark isWord_typeWords (by decide)).mpr ?_
    exact Nowhere.append (hls l (by simp) _ _ hends)
      (ih fun m hm => hls m (List.mem_cons_of_mem _ hm))

/-- A comment declares nothing, unless a keyword stands at an end of its arrow. -/
theorem silent_comment {r : Relation} {line : String} (hline : commentLine? r = some line)
    (hsource : IsWord r.source.toList) (htarget : IsWord r.target.toList)
    (hnot : r.source.toList ∉ typeWords ∧ r.target.toList ∉ typeWords) {before : Option Char}
    {rest : List Char} (hr : WordEnds rest) : Silent typeWords before line.toList rest := by
  have hverb : ∃ verb, line = "// " ++ r.source ++ " " ++ verb ++ " " ++ r.target ∧
      ∀ w ∈ typeWords, ¬ w <:+: ' ' :: (verb.toList ++ [' ']) := by
    -- the verbs are fixed, so that no keyword stands in them is decided
    unfold commentLine? at hline
    cases hkind : r.kind with
    | dependency =>
      rw [hkind] at hline
      exact ⟨_, (Option.some.inj hline).symm, by decide +kernel⟩
    | association =>
      rw [hkind] at hline
      exact ⟨_, (Option.some.inj hline).symm, by decide +kernel⟩
    | inheritance => exact absurd hline (by simp [hkind])
    | implementation => exact absurd hline (by simp [hkind])
    | other kind => exact absurd hline (by simp [hkind])
  obtain ⟨verb, rfl, hinfix⟩ := hverb
  have hchars : ("// " ++ r.source ++ " " ++ verb ++ " " ++ r.target).toList =
      "// ".toList ++
        (r.source.toList ++ ((' ' :: (verb.toList ++ [' '])) ++ r.target.toList)) := by
    have hspace : " ".toList = [' '] := rfl
    simp only [String.toList_append, hspace, List.append_assoc, List.cons_append, List.nil_append]
  rw [hchars]
  refine Nowhere.append (silent_marks isWord_typeWords (by decide)) (Nowhere.append ?_ ?_)
  · exact silent_word isWord_typeWords hsource hnot.1 (wordEnds_space _)
  · refine Nowhere.append (silent_of_absent isWord_typeWords hinfix (Or.inl ?_)) ?_
    · rw [← List.cons_append, lastOf_append]
      rfl
    · exact silent_word isWord_typeWords htarget hnot.2 hr

/-- **What is written is the text of a source.** -/
theorem renders_write (h : Declarable d) :
    Renders (write d) (sourceOf (basesIn d.relations) [] (boxes d)) := by
  refine ⟨wellFormed_written h, ?_, _, toList_write d, ?_⟩
  · rw [map_name_types_sourceOf, map_label_boxes]
    exact h.nodup
  · split
    · trivial
    · have hbreak : isWord '\n' = false := by decide
      refine Nowhere.append (silent_broken ?_ hbreak) (silent_marks isWord_typeWords (by decide))
      intro line hline b r hr
      unfold commentLines at hline
      split at hline
      · exact absurd hline (by simp)
      · -- the first line is a fixed word, and any other is the comment of a relation
        rcases List.mem_cons.mp hline with rfl | hline
        · trivial
        · obtain ⟨rel, hrel, hsome⟩ := List.mem_filterMap.mp hline
          obtain ⟨_, hsource, htarget⟩ := of_mem_relations hrel
          exact silent_comment hsome (h.labels _ hsource) (h.labels _ htarget)
            (h.comments _ hrel (by rw [hsome]; rfl)) hr

end ClassAtlas.Code
