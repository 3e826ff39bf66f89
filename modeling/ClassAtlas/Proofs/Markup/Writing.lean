import Mathlib.Data.List.Infix
import ClassAtlas.Markup.Writer
import ClassAtlas.Proofs.Diagram.Sketch
import ClassAtlas.Proofs.Markup.Reading
import ClassAtlas.Proofs.Text.Lines

/-!
# What is read in a written text

The written form of a diagram has three sorts of lines: the line that opens the block of a box, the
line of an arrow, and lines that say nothing to the reader. A line of the last sort is *quiet*: no
declaration begins in it, and it is no relation.

A declaration may run across the end of a line, so the line of an arrow whose target is labelled
`class` declares whatever the next line begins with. It begins with another label then, which the
block of its box has declared before.

Members are written as they stand, so a block may declare names besides the label, its *stray
names*. No declaration runs out of the closing brace, so each block declares what it would declare
alone.
-/

namespace ClassAtlas.Markup

open Text

variable {K : Type}

/-- The keyword of declarations. -/
def keyword : List Char := ['c', 'l', 'a', 's', 's']

theorem toList_keyword : "class".toList = keyword := by
  simp [keyword]

theorem isWord_keyword : ∀ w ∈ [keyword], IsWord w := by
  intro w hw
  rw [List.mem_singleton.mp hw]
  decide

/-! ## Quiet lines -/

/-- The reader passes over the line. -/
structure Quiet (line : String) : Prop where
  keyword : ¬ keyword <:+: line.toList
  start : WordEnds (trimStart line.toList)
  whole : ∀ c ∈ line.toList, c ≠ '\n' ∧ c ≠ ';'

/-- A member as the writer expects it: on one line, with a visibility mark in front, and without the
keyword of declarations. -/
structure PlainMember (line : String) : Prop where
  mark : ∃ c ∈ ['+', '-', '#', '~'], line.toList.head? = some c
  whole : ∀ c ∈ line.toList, c ≠ '\n' ∧ c ≠ ';'
  keyword : ¬ Markup.keyword <:+: line.toList

instance (line : String) : Decidable (PlainMember line) :=
  decidable_of_iff ((∃ c ∈ ['+', '-', '#', '~'], line.toList.head? = some c) ∧
    (∀ c ∈ line.toList, c ≠ '\n' ∧ c ≠ ';') ∧ ¬ Markup.keyword <:+: line.toList)
    ⟨fun ⟨a, b, c⟩ => ⟨a, b, c⟩, fun ⟨a, b, c⟩ => ⟨a, b, c⟩⟩

theorem quiet_close : Quiet "  \x7d" :=
  ⟨by decide +kernel, by decide +kernel, by decide +kernel⟩

theorem quiet_interface : Quiet "    <<interface>>" :=
  ⟨by decide +kernel, by decide +kernel, by decide +kernel⟩

theorem parentheses {tail : String} (h : tail ∈ ["", "()"]) :
    ∀ c ∈ tail.toList, c = '(' ∨ c = ')' := by
  rcases List.mem_pair.mp h with rfl | rfl <;> decide

/-- No keyword comes about between an indentation and the parentheses of a method. -/
theorem keyword_member {line tail : String} (h : ¬ keyword <:+: line.toList)
    (ht : ∀ c ∈ tail.toList, c = '(' ∨ c = ')') :
    ¬ keyword <:+: ("    " ++ line ++ tail).toList := by
  have hword : IsWord keyword := isWord_keyword _ (by simp)
  have hblank : ∀ d ∈ "    ".toList, isWord d = false := by decide +kernel
  have hmarks : ∀ d ∈ tail.toList, isWord d = false := by
    intro d hd
    rcases ht d hd with rfl | rfl <;> decide
  have htext : ("    " ++ line ++ tail).toList = "    ".toList ++ (line.toList ++ tail.toList) := by
    simp
  rw [htext]
  intro hin
  exact h (hword.infix_of_append_marks hmarks (hword.infix_of_marks_append hblank hin))

/-- A plain member stays quiet between an indentation and the parentheses of a method. -/
theorem quiet_member {line tail : String} (h : PlainMember line)
    (ht : ∀ c ∈ tail.toList, c = '(' ∨ c = ')') : Quiet ("    " ++ line ++ tail) := by
  obtain ⟨⟨c, hc, hhead⟩, hwhole, hkey⟩ := h
  obtain ⟨r, hr⟩ := List.head?_eq_some_iff.mp hhead
  have htext : ("    " ++ line ++ tail).toList = "    ".toList ++ (line.toList ++ tail.toList) := by
    simp
  have hmarks : ∀ d ∈ tail.toList, d ≠ '\n' ∧ d ≠ ';' := by
    intro d hd
    rcases ht d hd with rfl | rfl <;> decide
  have hblank : ∀ d ∈ "    ".toList, isBlank d = true ∧ d ≠ '\n' ∧ d ≠ ';' := by decide +kernel
  refine ⟨keyword_member hkey ht, ?_, ?_⟩
  · -- a member starts with its mark, behind the indent
    have hplain : ∀ d ∈ ['+', '-', '#', '~'], isBlank d = false ∧ isWord d = false := by decide
    rw [htext, trimStart_append (fun d hd => (hblank d hd).1), hr, List.cons_append,
      trimStart_of_ends (blanksEnd_cons.mpr (hplain c hc).1)]
    exact (hplain c hc).2
  · rw [htext]
    intro d hd
    rcases List.mem_append.mp hd with hd | hd
    · exact (hblank d hd).2
    · rcases List.mem_append.mp hd with hd | hd
      · exact hwhole d hd
      · exact hmarks d hd

/-- Lines without the keyword declare nothing, nor does one together with the next. -/
theorem silent_lines {ls : List String} (h : ∀ l ∈ ls, ¬ keyword <:+: l.toList)
    {before : Option Char} {rest : List Char} : Silent [keyword] before (charsOf ls) rest := by
  induction ls generalizing before with
  | nil => trivial
  | cons l ls ih =>
    have hline : Silent [keyword] before (l.toList ++ ['\n']) (charsOf ls ++ rest) := by
      refine silent_of_absent isWord_keyword ?_ (.inl (wordDone_append_mark _ (by decide)))
      intro w hw hin
      rw [List.mem_singleton.mp hw] at hin
      have hword : IsWord keyword := isWord_keyword _ (by simp)
      exact h l (by simp) (hword.infix_of_append_marks (by decide) hin)
    rw [charsOf_cons, List.append_cons]
    exact Nowhere.append hline (ih fun m hm => h m (List.mem_cons_of_mem _ hm))

/-- A quiet line is no relation. -/
theorem ofChars?_quiet {line : String} (h : Quiet line) :
    RelationStatement.ofChars? (trim line.toList) = none := by
  have hstart : WordEnds (trim line.toList) := by
    unfold WordEnds
    rw [head?_trim]
    exact h.start
  unfold RelationStatement.ofChars?
  rw [word_eq_none hstart]
  rfl

/-! ## Blocks of boxes -/

/-- The lines of a block behind the one that opens it. -/
def innerLines (node : Node K) : List String :=
  (if node.kind = .interfaceBox then ["    <<interface>>"] else []) ++
    (node.members.map memberLines).getD [] ++ ["  \x7d"]

theorem nodeLines_eq (node : Node K) :
    nodeLines node = ("  class " ++ node.label ++ " \x7b") :: innerLines node := by
  simp [nodeLines, innerLines]

/-- The members of a box are plain. -/
def PlainMembers (node : Node K) : Prop :=
  ∀ m ∈ node.members, ∀ line ∈ m.attributes ++ m.methods, PlainMember line

instance (node : Node K) : Decidable (PlainMembers node) :=
  inferInstanceAs (Decidable (∀ m ∈ node.members, _))

/-- The lines of a block are those of its members, the mark of an interface and the closing
brace. -/
theorem forall_innerLines {p : String → Prop} {node : Node K} (hinterface : p "    <<interface>>")
    (hclose : p "  \x7d")
    (hmember : ∀ m ∈ node.members, ∀ line ∈ m.attributes ++ m.methods, ∀ tail ∈ ["", "()"],
      p ("    " ++ line ++ tail)) : ∀ line ∈ innerLines node, p line := by
  intro line hline
  -- the mark of an interface, the members, the closing brace
  unfold innerLines at hline
  rcases List.mem_append.mp hline with hline | hline
  · rcases List.mem_append.mp hline with hline | hline
    · split at hline
      · rw [List.mem_singleton.mp hline]
        exact hinterface
      · exact absurd hline (by simp)
    · cases hm : node.members with
      | none => rw [hm] at hline; exact absurd hline (by simp)
      | some m =>
        rw [hm] at hline
        rcases List.mem_append.mp hline with hline | hline
        · obtain ⟨a, ha, rfl⟩ := List.mem_map.mp hline
          simpa using hmember m hm a (List.mem_append_left _ ha) "" (by simp)
        · obtain ⟨a, ha, rfl⟩ := List.mem_map.mp hline
          exact hmember m hm a (List.mem_append_right _ ha) "()" (by simp)
  · rw [List.mem_singleton.mp hline]
    exact hclose

theorem quiet_innerLines {node : Node K} (h : PlainMembers node) :
    ∀ line ∈ innerLines node, Quiet line :=
  forall_innerLines quiet_interface quiet_close fun m hm line hline _ htail =>
    quiet_member (h m hm line hline) (parentheses htail)

/-- The members of a box do not contain the keyword of declarations. -/
def KeywordFree (node : Node K) : Prop :=
  ∀ m ∈ node.members, ∀ line ∈ m.attributes ++ m.methods, ¬ keyword <:+: line.toList

theorem PlainMembers.keywordFree {node : Node K} (h : PlainMembers node) : KeywordFree node :=
  fun m hm line hline => (h m hm line hline).keyword

theorem keyword_innerLines {node : Node K} (h : KeywordFree node) :
    ∀ line ∈ innerLines node, ¬ keyword <:+: line.toList :=
  forall_innerLines quiet_interface.keyword quiet_close.keyword fun m hm line hline _ htail =>
    keyword_member (h m hm line hline) (parentheses htail)

/-- The names that the lines of a block declare behind the one that opens it. -/
def strayNames (node : Node K) : List String :=
  (occurrences (declared keyword) (charsOf (innerLines node))).map String.ofList

theorem strayNames_eq_nil {node : Node K} (h : KeywordFree node) : strayNames node = [] := by
  have hsilent : Nowhere (Matches (declared keyword)) none (charsOf (innerLines node)) [] :=
    Nowhere.mono (silent_lines (keyword_innerLines h)) fun _ _ => heads_of_declared
  have hnone : occurrences (declared keyword) (charsOf (innerLines node)) = [] :=
    occurrencesFrom_eq_nil hsilent
  unfold strayNames
  rw [hnone, List.map_nil]

variable {before : Option Char} {rest : List Char}

/-- A block ends with its closing brace, so no declaration runs out of it. -/
theorem occurrences_innerLines (hbefore : before.any isWord = false) (node : Node K) :
    occurrencesFrom (declared keyword) before (charsOf (innerLines node) ++ rest) =
      occurrences (declared keyword) (charsOf (innerLines node)) ++
        occurrencesFrom (declared keyword) (lastOf before (charsOf (innerLines node))) rest := by
  have hword : IsWord keyword := isWord_keyword _ (by simp)
  -- the lines end with a brace, so that no declaration runs on behind them
  obtain ⟨u, hu⟩ : ∃ u, charsOf (innerLines node) = u ++ '}' :: ['\n'] := by
    have hclose : charsOf ["  \x7d"] = [' ', ' '] ++ '}' :: ['\n'] := by simp
    unfold innerLines
    rw [charsOf_append, hclose, ← List.append_assoc]
    exact ⟨_, rfl⟩
  have hbegun : Nowhere (Begun keyword) before (charsOf (innerLines node)) [] := by
    rw [hu]
    exact nowhere_begun_of_mark hword (by decide) (by decide) (by decide)
  have hdone : WordDone (charsOf (innerLines node)) := by
    rw [hu, List.append_cons]
    exact wordDone_append_mark _ (by decide)
  rw [occurrencesFrom_append (unbroken_declared hword hdone hbegun rest)]
  exact congrArg (· ++ _) (occurrencesFrom_congr (declared_congr hbefore) _)

/-- The block of a box declares its label, and what its other lines declare. -/
theorem occurrences_nodeLines {node : Node K} (hlabel : IsWord node.label.toList) :
    occurrencesFrom (declared keyword) before (charsOf (nodeLines node) ++ rest) =
      node.label.toList :: occurrences (declared keyword) (charsOf (innerLines node)) ++
        occurrencesFrom (declared keyword) (lastOf before (charsOf (nodeLines node))) rest := by
  have hword : IsWord keyword := isWord_keyword _ (by simp)
  have silent {b : Option Char} {u r : List Char} (h : Silent [keyword] b u r) :
      Nowhere (Matches (declared keyword)) b u r := Nowhere.mono h fun _ _ => heads_of_declared
  have hchars : charsOf (nodeLines node) = [' ', ' '] ++
      ((keyword ++ ' ' :: node.label.toList) ++
        ([' ', '{', '\n'] ++ charsOf (innerLines node))) := by
    rw [nodeLines_eq, charsOf_cons]
    simp [keyword]
  have hfound : declared keyword (lastOf before [' ', ' '])
      ((keyword ++ ' ' :: node.label.toList) ++
        ([' ', '{', '\n'] ++ (charsOf (innerLines node) ++ rest)))
      = some (node.label.toList, [' ', '{', '\n'] ++ (charsOf (innerLines node) ++ rest)) := by
    rw [List.append_assoc, List.cons_append]
    exact declared_word rfl hword hlabel rfl
  have hend : ∀ b, (lastOf b [' ', '{', '\n']).any isWord = false :=
    fun _ => (by decide : isWord '\n' = false)
  -- the indentation, the declaration, the end of its line, and the other lines of the block
  rw [hchars]
  simp only [List.append_assoc _ _ rest, lastOf_append]
  rw [occurrencesFrom_of_nowhere (silent (silent_marks isWord_keyword (by decide))),
    occurrencesFrom_of_found hfound (by simp [keyword]),
    occurrencesFrom_of_nowhere (silent (silent_marks isWord_keyword (by decide))),
    occurrences_innerLines (hend _)]
  simp

theorem occurrences_blocks {nodes : List (Node K)} (hlabel : ∀ n ∈ nodes, IsWord n.label.toList) :
    occurrencesFrom (declared keyword) before (charsOf (nodes.flatMap nodeLines) ++ rest) =
      (nodes.flatMap fun n =>
          n.label.toList :: occurrences (declared keyword) (charsOf (innerLines n))) ++
        occurrencesFrom (declared keyword)
          (lastOf before (charsOf (nodes.flatMap nodeLines))) rest := by
  induction nodes generalizing before with
  | nil => rfl
  | cons n nodes ih =>
    rw [List.flatMap_cons, charsOf_append, List.append_assoc,
      occurrences_nodeLines (hlabel n (by simp)),
      ih fun m hm => hlabel m (List.mem_cons_of_mem _ hm), lastOf_append, List.flatMap_cons,
      List.append_assoc]

/-! ## Arrows -/

/-- The line of an arrow between two labels. -/
def relationLine (r : Relation) : String :=
  "  " ++ r.source ++ " " ++ kindSymbol r.kind ++ " " ++ r.target

theorem arrowLines_eq (d : Diagram K) :
    d.arrows.filterMap (arrowLine? d) = d.relations.map relationLine := by
  unfold Diagram.relations
  rw [List.map_filterMap]
  refine congrArg (List.filterMap · d.arrows) (funext ?_)
  intro a
  unfold arrowLine? Diagram.endLabels?
  cases d.ends? a with
  | none => rfl
  | some ends => rfl

theorem toList_relationLine (r : Relation) :
    (relationLine r).toList = [' ', ' '] ++ (r.source.toList ++ ' ' ::
      ((kindSymbol r.kind).toList ++ ' ' :: r.target.toList)) := by
  simp [relationLine]

theorem kindSymbol_marks (kind : ArrowKind) :
    ∀ c ∈ (kindSymbol kind).toList, isWord c = false ∧ c ≠ '\n' ∧ c ≠ ';' := by
  have key : ∀ c ∈ ['-', '.', '|', '>'], isWord c = false ∧ c ≠ '\n' ∧ c ≠ ';' := by decide
  intro c hc
  refine key c ?_
  cases kind <;> simp [kindSymbol] at hc <;> aesop

/-- The lines of arrows are made of labels. -/
theorem nowhere_stray_relationLines {names : List String} (hnames : ∀ n ∈ names, IsWord n.toList)
    {rs : List Relation} (hrs : ∀ r ∈ rs, r.source ∈ names ∧ r.target ∈ names) :
    Nowhere (Stray names) before (charsOf (rs.map relationLine)) [] := by
  induction rs generalizing before with
  | nil => trivial
  | cons r rs ih =>
    have hwordy := (lexical_stray names).wordy
    have word {name : String} (hmem : name ∈ names) {b : Option Char} {c : Char} {s : List Char}
        (hc : isWord c = false) : Nowhere (Stray names) b name.toList (c :: s) :=
      nowhere_stray_word (hnames name hmem) (by rwa [String.ofList_toList]) hc
    obtain ⟨hsource, htarget⟩ := hrs r (by simp)
    rw [List.map_cons, charsOf_cons, toList_relationLine]
    simp only [List.append_assoc, List.cons_append, List.nil_append]
    -- two blanks, the source, a blank, the symbol, a blank, the target, a line break
    refine (nowhere_mark hwordy (by decide)).mpr ((nowhere_mark hwordy (by decide)).mpr ?_)
    refine Nowhere.append (word hsource (c := ' ') (by decide)) ?_
    refine (nowhere_mark hwordy (by decide)).mpr (Nowhere.append ?_ ?_)
    · exact nowhere_marks hwordy fun c hc => (kindSymbol_marks r.kind c hc).1
    · refine (nowhere_mark hwordy (by decide)).mpr
        (Nowhere.append (word htarget (c := '\n') (by decide)) ?_)
      exact (nowhere_mark hwordy (by decide)).mpr
        (ih fun x hx => hrs x (List.mem_cons_of_mem _ hx))

/-! ## Declared names -/

/-- The labels are words, and the members of labelled boxes are plain. -/
structure Writable (d : Diagram K) : Prop where
  label : ∀ n ∈ d.nodes, n.label ≠ "" → IsWord n.label.toList
  members : ∀ n ∈ d.nodes, n.label ≠ "" → PlainMembers n

instance (d : Diagram K) : Decidable (Writable d) :=
  decidable_of_iff ((∀ n ∈ d.nodes, n.label ≠ "" → IsWord n.label.toList) ∧
    ∀ n ∈ d.nodes, n.label ≠ "" → PlainMembers n) ⟨fun ⟨a, b⟩ => ⟨a, b⟩, fun ⟨a, b⟩ => ⟨a, b⟩⟩

variable {d : Diagram K}

theorem Writable.of_labelled (h : Writable d) {n : Node K} (hn : n ∈ d.labelledNodes) :
    IsWord n.label.toList ∧ PlainMembers n := by
  obtain ⟨hmem, hne⟩ := mem_labelledNodes.mp hn
  exact ⟨h.label n hmem hne, h.members n hmem hne⟩

theorem isWord_labels (h : ∀ n ∈ d.labelledNodes, IsWord n.label.toList) :
    ∀ name ∈ d.labels, IsWord name.toList := by
  intro name hname
  rw [← map_label_labelledNodes] at hname
  obtain ⟨n, hn, rfl⟩ := List.mem_map.mp hname
  exact h n hn

theorem Writable.isWord_labels (h : Writable d) : ∀ name ∈ d.labels, IsWord name.toList :=
  Markup.isWord_labels fun _ hn => (h.of_labelled hn).1

theorem lines_eq (d : Diagram K) :
    lines d = ["classDiagram"] ++ (d.labelledNodes.flatMap nodeLines ++
      d.relations.map relationLine) := by
  unfold lines Diagram.labelledNodes
  rw [arrowLines_eq, List.append_assoc]

/-- A written text declares the labels and what stands in the blocks, in order. -/
theorem declaredNames_write_eq (h : ∀ n ∈ d.labelledNodes, IsWord n.label.toList) :
    declaredNames "class" (write d) =
      (d.labelledNodes.flatMap fun n => n.label :: strayNames n).eraseDups := by
  have hheader : Silent [keyword] none (charsOf ["classDiagram"])
      (charsOf (d.labelledNodes.flatMap nodeLines) ++ charsOf (d.relations.map relationLine)) := by
    have hword : IsWord "classDiagram".toList := by decide +kernel
    rw [charsOf_cons]
    exact Nowhere.append (silent_word isWord_keyword hword (by decide +kernel) rfl)
      (silent_marks isWord_keyword (by decide))
  have hnames : (d.labelledNodes.flatMap fun n =>
      n.label.toList :: occurrences (declared keyword) (charsOf (innerLines n))).map String.ofList =
      d.labelledNodes.flatMap fun n => n.label :: strayNames n := by
    rw [List.map_flatMap]
    simp only [List.map_cons, String.ofList_toList]
    rfl
  unfold declaredNames write
  rw [toList_keyword, show occurrences (declared keyword) (unlines (lines d)).toList =
      occurrencesFrom (declared keyword) none (unlines (lines d)).toList from rfl, toList_unlines,
    lines_eq, charsOf_append, charsOf_append,
    occurrencesFrom_of_nowhere (Nowhere.mono hheader fun _ _ => heads_of_declared),
    occurrences_blocks h, List.map_append, hnames]
  -- what the arrows declare has been declared by a block
  refine eraseDups_append_of_subset ?_
  intro name hname
  obtain ⟨cs, hcs, rfl⟩ := List.mem_map.mp hname
  have hmem := mem_of_nowhere_stray
    (nowhere_stray_relationLines (isWord_labels h) fun r hr => (of_mem_relations hr).2) hcs
  rw [← map_label_labelledNodes] at hmem
  obtain ⟨n, hn, hlabel⟩ := List.mem_map.mp hmem
  exact List.mem_flatMap.mpr ⟨n, hn, by rw [hlabel]; exact List.mem_cons_self ..⟩

/-- Where the members are plain, a written text declares the labels, in order. -/
theorem declaredNames_write (h : Writable d) :
    declaredNames "class" (write d) = d.labels.eraseDups := by
  have hlabels : (d.labelledNodes.flatMap fun n => n.label :: strayNames n) = d.labels := by
    rw [← map_label_labelledNodes, List.map_eq_flatMap]
    refine List.flatMap_congr fun n hn => ?_
    rw [strayNames_eq_nil (h.of_labelled hn).2.keywordFree]
  rw [declaredNames_write_eq fun n hn => (h.of_labelled hn).1, hlabels]

/-! ## Relations -/

theorem isStroke_of_isWord {c : Char} (h : isWord c = true) : isStroke c = false := by
  have key : ∀ d ∈ ['-', '.', '<', '>', '|', '*'], isWord d = false := by decide
  cases hs : isStroke c with
  | false => rfl
  | true => rw [key c (of_decide_eq_true hs)] at h; exact absurd h (by simp)

/-- No symbol begins with a word, even one whose first letter is the circle of a symbol. -/
theorem symbol_word {w s : List Char} (hw : IsWord w) (hs : s.head?.any isStroke = false) :
    symbol (w ++ s) = none := by
  obtain ⟨hne, hall⟩ := hw
  have hrun : ∀ v, (∀ c ∈ v, isWord c = true) → run isStroke (v ++ s) = none := by
    intro v hv
    refine run_eq_none ?_
    cases v with
    | nil => exact hs
    | cons d v => exact isStroke_of_isWord (hv d (by simp))
  -- a circle is at most the first letter, and the rest of the word is no stroke
  have hcircle : ∃ first v, circle (w ++ s) = (first, v ++ s) ∧ ∀ c ∈ v, isWord c = true := by
    unfold circle
    split
    · rename_i r heq
      cases w with
      | nil => exact absurd rfl hne
      | cons c w =>
        obtain ⟨_, rfl⟩ := List.cons.inj heq
        exact ⟨_, w, rfl, fun d hd => hall d (List.mem_cons_of_mem _ hd)⟩
    · exact ⟨_, w, rfl, hall⟩
  obtain ⟨first, v, heq, hv⟩ := hcircle
  unfold symbol
  rw [heq]
  simp [hrun v hv]

/-- The line that opens a block is no relation: no symbol stands behind the keyword. -/
theorem ofChars?_open {label : String} (h : IsWord label.toList) :
    RelationStatement.ofChars? (trim ("  class " ++ label ++ " \x7b").toList) = none := by
  have htrim : trim ("  class " ++ label ++ " \x7b").toList =
      keyword ++ ' ' :: (label.toList ++ [' ', '{']) := by
    have htext : ("  class " ++ label ++ " \x7b").toList =
        [' ', ' '] ++ ((keyword ++ ' ' :: (label.toList ++ [' '])) ++ ['{']) := by
      simp [keyword]
    have hstart : BlanksEnd ((keyword ++ ' ' :: (label.toList ++ [' '])) ++ ['{']) := rfl
    rw [htext]
    unfold trim
    rw [trimStart_append (by decide), trimStart_of_ends hstart, trimEnd_append_mark _ (by decide)]
    simp
  have hword : word (keyword ++ ' ' :: (label.toList ++ [' ', '{'])) =
      some (keyword, ' ' :: (label.toList ++ [' ', '{'])) := word_append (by decide) rfl
  -- the line reads as a word and a gap, but then a symbol would have to follow
  have hsymbol : symbol (label.toList ++ [' ', '{']) = none := symbol_word h (by decide)
  unfold RelationStatement.ofChars?
  rw [htrim, hword]
  simp [gap_space (h.blanksEnd _), hsymbol]

theorem blanksEnd_kindSymbol (kind : ArrowKind) (s : List Char) :
    BlanksEnd ((kindSymbol kind).toList ++ s) := by
  have key : isBlank '-' = false ∧ isBlank '.' = false := by decide
  cases kind <;> simp [kindSymbol, key]

theorem symbol_kindSymbol (kind : ArrowKind) (s : List Char) :
    symbol ((kindSymbol kind).toList ++ ' ' :: s) = some ((kindSymbol kind).toList, ' ' :: s) := by
  cases kind with
  | other word =>
    show symbol ("-->".toList ++ ' ' :: s) = some ("-->".toList, ' ' :: s)
    rfl
  | _ => rfl

theorem symbolKind_kindSymbol {kind : ArrowKind} (h : kind.isKnown = true) :
    symbolKind (kindSymbol kind) = kind := by
  cases kind with
  | other word => exact absurd h (by simp [ArrowKind.isKnown])
  | _ => decide

/-- The relation that a line states. -/
def stated (line : String) : Option Relation :=
  (RelationStatement.ofChars? (trim line.toList)).map (·.relation)

theorem stated_relationLine {r : Relation} (hsource : IsWord r.source.toList)
    (htarget : IsWord r.target.toList) (hk : r.kind.isKnown = true) :
    stated (relationLine r) = some r := by
  -- the indent is trimmed off, and the reader takes the line apart as it was written
  have htrim : trim (relationLine r).toList = r.source.toList ++ ' ' ::
      ((kindSymbol r.kind).toList ++ ' ' :: r.target.toList) := by
    rw [toList_relationLine]
    unfold trim
    rw [trimStart_append (by decide), trimStart_of_ends (hsource.blanksEnd _), List.append_cons,
      ← List.append_assoc, List.append_cons, trimEnd_append_word _ htarget]
  have hends : WordEnds (' ' :: ((kindSymbol r.kind).toList ++ ' ' :: r.target.toList)) := rfl
  have hsymbol := blanksEnd_kindSymbol r.kind (' ' :: r.target.toList)
  have htarget' : word r.target.toList = some (r.target.toList, []) := by
    simpa using word_append htarget wordEnds_nil
  have hblank : BlanksEnd r.target.toList := by simpa using htarget.blanksEnd []
  unfold stated RelationStatement.ofChars?
  rw [htrim, word_append hsource hends]
  simp [gap_space hsymbol, symbol_kindSymbol, gap_space hblank, htarget', label,
    RelationStatement.relation, symbolKind_kindSymbol hk]

theorem relationStatements_eq (text : String) :
    relationStatements text =
      ((text.toList.splitOnP fun c => c = '\n' || c = ';').map trim).filterMap
        RelationStatement.ofChars? := by
  unfold relationStatements statements
  rw [List.filterMap_filter]
  refine congrArg (List.filterMap · _) (funext ?_)
  intro s
  -- neither an empty statement nor a comment begins with a word
  split
  · rfl
  · rename_i hskip
    have hstart : WordEnds s := by
      cases s with
      | nil => rfl
      | cons c s =>
        have hcomment : isComment (c :: s) = true := by simpa using hskip
        unfold isComment at hcomment
        split at hcomment
        · rename_i heq
          obtain ⟨rfl, _⟩ := List.cons.inj heq
          exact (by decide : isWord '%' = false)
        · exact absurd hcomment (by simp)
    unfold RelationStatement.ofChars?
    rw [word_eq_none hstart]
    rfl

theorem whole_of_isWord {w : List Char} (h : IsWord w) : ∀ c ∈ w, c ≠ '\n' ∧ c ≠ ';' := by
  intro c hc
  have hword := h.2 c hc
  refine ⟨?_, ?_⟩
  · rintro rfl
    exact absurd hword (by decide)
  · rintro rfl
    exact absurd hword (by decide)

theorem whole_nodeLines {n : Node K} (hlabel : IsWord n.label.toList)
    (hplain : PlainMembers n) :
    ∀ line ∈ nodeLines n, ∀ c ∈ line.toList, c ≠ '\n' ∧ c ≠ ';' := by
  intro line hline
  rw [nodeLines_eq] at hline
  rcases List.mem_cons.mp hline with rfl | hline
  · -- the first line names the box, between marks
    have hmarks : ∀ c ∈ "  class ".toList ++ " \x7b".toList, c ≠ '\n' ∧ c ≠ ';' := by
      decide +kernel
    intro c hc
    rw [String.toList_append, String.toList_append] at hc
    rcases List.mem_append.mp hc with hc | hc
    · rcases List.mem_append.mp hc with hc | hc
      · exact hmarks c (List.mem_append_left _ hc)
      · exact whole_of_isWord hlabel c hc
    · exact hmarks c (List.mem_append_right _ hc)
  · exact (quiet_innerLines hplain line hline).whole

theorem whole_relationLine {r : Relation} (hsource : IsWord r.source.toList)
    (htarget : IsWord r.target.toList) :
    ∀ c ∈ (relationLine r).toList, c ≠ '\n' ∧ c ≠ ';' := by
  intro c hc
  rw [toList_relationLine] at hc
  simp only [List.mem_append, List.mem_cons, List.not_mem_nil, or_false] at hc
  rcases hc with (rfl | rfl) | hc | rfl | hc | rfl | hc
  · decide
  · decide
  · exact whole_of_isWord hsource c hc
  · decide
  · exact (kindSymbol_marks r.kind c hc).2
  · decide
  · exact whole_of_isWord htarget c hc

/-- No line of a written text is cut by a separator. -/
theorem whole_lines (h : Writable d) :
    ∀ line ∈ lines d, ∀ c ∈ line.toList, c ≠ '\n' ∧ c ≠ ';' := by
  intro line hline
  rw [lines_eq] at hline
  rcases List.mem_append.mp hline with hline | hline
  · rw [List.mem_singleton.mp hline]
    decide +kernel
  -- a line of a block, or the line of an arrow
  rcases List.mem_append.mp hline with hline | hline
  · obtain ⟨n, hn, hmem⟩ := List.mem_flatMap.mp hline
    obtain ⟨hlabel, hplain⟩ := h.of_labelled hn
    exact whole_nodeLines hlabel hplain line hmem
  · obtain ⟨r, hr, rfl⟩ := List.mem_map.mp hline
    obtain ⟨_, hsource, htarget⟩ := of_mem_relations hr
    exact whole_relationLine (h.isWord_labels _ hsource) (h.isWord_labels _ htarget)

theorem stated_header : stated "classDiagram" = none := by
  decide +kernel

theorem stated_nodeLines (h : Writable d) {n : Node K} (hn : n ∈ d.labelledNodes) :
    ∀ line ∈ nodeLines n, stated line = none := by
  intro line hline
  unfold stated
  rw [nodeLines_eq] at hline
  rcases List.mem_cons.mp hline with rfl | hline
  · rw [ofChars?_open (h.of_labelled hn).1]
    rfl
  · rw [ofChars?_quiet (quiet_innerLines (h.of_labelled hn).2 line hline)]
    rfl

/-- A written text states the relations, in order. -/
theorem relationsOf_write (h : Writable d) : relationsOf (write d) = d.relations := by
  have hsplit : (write d).toList.splitOnP (fun c => c = '\n' || c = ';') =
      (lines d).map String.toList ++ [[]] := by
    unfold write
    rw [toList_unlines]
    refine splitOnP_charsOf rfl ?_
    intro line hline c hc
    have := whole_lines h line hline c hc
    simp [this]
  have hlines : relationsOf (write d) = (lines d).filterMap stated := by
    -- behind the last line break the text is empty
    have hlast : ([[]].map trim).filterMap RelationStatement.ofChars? = [] := by decide
    unfold relationsOf
    rw [relationStatements_eq, hsplit, List.map_append, List.filterMap_append, hlast,
      List.append_nil, List.map_map, List.filterMap_map, List.map_filterMap]
    rfl
  have hblocks : (d.labelledNodes.flatMap nodeLines).filterMap stated = [] := by
    rw [List.filterMap_eq_nil_iff]
    intro line hline
    obtain ⟨n, hn, hmem⟩ := List.mem_flatMap.mp hline
    exact stated_nodeLines h hn line hmem
  have harrows : (d.relations.map relationLine).filterMap stated = d.relations := by
    rw [List.filterMap_map]
    refine (List.filterMap_congr ?_).trans List.filterMap_some
    intro r hr
    obtain ⟨hk, hsource, htarget⟩ := of_mem_relations hr
    rw [Function.comp_apply,
      stated_relationLine (h.isWord_labels _ hsource) (h.isWord_labels _ htarget) hk]
  have hheader : ["classDiagram"].filterMap stated = [] := by
    rw [List.filterMap_cons_none stated_header, List.filterMap_nil]
  rw [hlines, lines_eq, List.filterMap_append, List.filterMap_append, hheader, hblocks, harrows]
  rfl

end ClassAtlas.Markup
