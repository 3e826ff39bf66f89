import ClassAtlas.Proofs.Code.ClassKeyword
import ClassAtlas.Proofs.Code.ListedBases
import ClassAtlas.Proofs.Code.QualifiedBases
import ClassAtlas.Proofs.Code.Reading

/-!
# Names of parent classes

A declaration takes any word for the name of a class, and a base list takes identifiers only. So a
class whose name begins with a letter of another script, or with a digit, is read like every other
class, and the class that names it as its parent is not linked to it.
-/

namespace ClassAtlas.Code

open Text

variable {α : Type} {p : Pattern α} {before : Option Char} {w g s : List Char}
  {settings : ReadSettings} {supply : Supply}

/-! ## A base that is a word -/

theorem isPart_word (hw : IsWord w) (hne : w ≠ "where".toList) : IsPart w where
  unsplit s := by
    refine splitTop_append (fun c hc => ?_) s
    have hword := hw.2 c hc
    refine ⟨?_, ?_, ?_⟩ <;> rintro rfl <;> exact absurd hword (by decide)
  unconstrained before rest hr := by
    have hname : IsWord (String.ofList w).toList := by rwa [String.toList_ofList]
    have hnot : String.ofList w ≠ "where" := by
      intro heq
      apply hne
      rw [← heq, String.toList_ofList]
    have hnone : Nowhere (Matches whereWord) before (String.ofList w).toList rest :=
      nowhere_whereWord hname hnot hr
    rwa [String.toList_ofList] at hnone

theorem baseName?_word (hw : IsWord w) :
    baseName? w = if isIdentifier w then some (String.ofList w) else none := by
  -- a word has neither an angle bracket nor a dot, so nothing of it is cut off
  have hall : ∀ c ∈ w, decide (c ≠ '<') = true := by
    intro c hc
    refine decide_eq_true ?_
    rintro rfl
    exact absurd (hw.2 _ hc) (by decide)
  have hdots : ∀ c ∈ w.reverse, decide (c ≠ '.') = true := by
    intro c hc
    refine decide_eq_true ?_
    rintro rfl
    exact absurd (hw.2 _ (List.mem_reverse.mp hc)) (by decide)
  have htrim : trim w = w := by
    have hblanks := trim_word (g := []) (h := []) (by simp) (by simp) hw
    rwa [List.nil_append, List.append_nil] at hblanks
  unfold baseName? lastName
  rw [List.takeWhile_eq_self_iff.mpr hall, htrim, List.takeWhile_eq_self_iff.mpr hdots,
    List.reverse_reverse]

/-- A word is read from a base list if it is an identifier. -/
theorem baseNames_word (hw : IsWord w) (hne : w ≠ "where".toList)
    (hg : ∀ c ∈ g, isBlank c = true) :
    baseNames (w ++ g) = if isIdentifier w then [String.ofList w] else [] := by
  have hread : baseNames (listed [w] ++ g) = [w].filterMap baseName? :=
    baseNames_parts (by simpa using isPart_word hw hne) hg
  have hlist : listed [w] = w := by simp [listed]
  rw [hlist, List.filterMap_cons, List.filterMap_nil, baseName?_word hw] at hread
  rw [hread]
  by_cases hid : isIdentifier w = true
  · simp only [if_pos hid]
  · simp only [if_neg hid]

/-! ## A class and its parent -/

/-- The text behind the name of a class that has a parent. -/
def parentChars (parent : List Char) : List Char := [' ', ':', ' '] ++ (parent ++ [' ', '{', '}'])

/-- A class that has a parent. -/
def childChars (parent child : String) : List Char :=
  "class".toList ++ ([' '] ++ (child.toList ++ parentChars parent.toList))

/-- The text behind the name of the parent: its block, and the class that has it as its parent. -/
def behindParent (parent child : String) : List Char :=
  [' ', '{', '}', '\n'] ++ childChars parent child

/-- A class, and behind it one that has it as its parent. -/
def familyText (parent child : String) : String :=
  "class " ++ parent ++ " \x7b\x7d\nclass " ++ child ++ " : " ++ parent ++ " \x7b\x7d"

theorem toList_familyText (parent child : String) :
    (familyText parent child).toList =
      "class".toList ++ ([' '] ++ (parent.toList ++ behindParent parent child)) := by
  have hclass : "class ".toList = "class".toList ++ [' '] := by decide +kernel
  have hbetween : " \x7b\x7d\nclass ".toList =
      [' ', '{', '}', '\n'] ++ ("class".toList ++ [' ']) := by decide +kernel
  have hcolon : " : ".toList = [' ', ':', ' '] := by decide +kernel
  have hblock : " \x7b\x7d".toList = [' ', '{', '}'] := by decide +kernel
  unfold familyText behindParent childChars parentChars
  simp only [String.toList_append, hclass, hbetween, hcolon, hblock, List.append_assoc]

theorem wordEnds_parentChars (s : List Char) : WordEnds (parentChars s) := by rfl

theorem wordEnds_behindParent (parent child : String) : WordEnds (behindParent parent child) := by
  rfl

theorem silent_parentChars (hw : IsWord w) :
    Silent typeWords before (parentChars w) s :=
  Nowhere.append (silent_marks isWord_typeWords (by decide)) (Nowhere.append
    (silent_before_mark isWord_typeWords hw ⟨by rfl, by rfl⟩)
    (silent_marks isWord_typeWords (by decide)))

theorem occurrences_parentChars (hp : Declarative p) (hw : IsWord w) :
    occurrencesFrom p before (parentChars w) = [] :=
  occurrencesFrom_eq_nil (hp.nowhere (silent_parentChars hw))

theorem occurrences_marks (hp : Declarative p) (hs : ∀ c ∈ s, isWord c = false) :
    occurrencesFrom p before s = [] :=
  occurrencesFrom_eq_nil (hp.nowhere (silent_marks isWord_typeWords hs))

section

variable {parent child : String} (hparent : IsWord parent.toList) (hchild : IsWord child.toList)

include hparent

/-- Where a pattern does not match at the parent, it goes on at the second class. -/
theorem occurrences_family (hp : Declarative p)
    (hnot : ¬ Matches p none
      ("class".toList ++ ([' '] ++ (parent.toList ++ behindParent parent child)))) :
    occurrencesFrom p none (familyText parent child).toList =
      occurrencesFrom p (some '\n') (childChars parent child) := by
  rw [toList_familyText, occurrences_pass_class isGap_space hparent
    (wordEnds_behindParent parent child) hp (.inr (by rfl)) hnot]
  exact occurrencesFrom_of_nowhere (hp.nowhere (silent_marks isWord_typeWords (by decide)))

/-- Where it does not match there either, it finds nothing. -/
theorem occurrences_child (hchild : IsWord child.toList) (hp : Declarative p)
    (hnot : ¬ Matches p before (childChars parent child)) :
    occurrencesFrom p before (childChars parent child) = [] := by
  unfold childChars at hnot ⊢
  rw [occurrences_pass_class isGap_space hchild (wordEnds_parentChars _) hp (.inr (by rfl)) hnot,
    occurrences_parentChars hp hparent]

include hchild

/-- The names of both classes are declared. -/
theorem occurrences_declared_family :
    occurrences (declared "class".toList) (familyText parent child).toList =
      [parent.toList, child.toList] := by
  -- the text piece by piece: the first class, what is between, the second class
  have hfirst : occurrencesFrom (declared "class".toList) none
      ("class".toList ++ ([' '] ++ (parent.toList ++ behindParent parent child))) =
        parent.toList :: occurrencesFrom (declared "class".toList) (lastOf none parent.toList)
          (behindParent parent child) :=
    occurrences_declared_class isGap_space hparent (wordEnds_behindParent parent child) rfl
  have hbetween : occurrencesFrom (declared "class".toList) (lastOf none parent.toList)
      (behindParent parent child) =
        occurrencesFrom (declared "class".toList) (some '\n') (childChars parent child) :=
    occurrencesFrom_of_nowhere
      (declarative_class.nowhere (silent_marks isWord_typeWords (by decide)))
  have hsecond : occurrencesFrom (declared "class".toList) (some '\n') (childChars parent child) =
      [child.toList] := by
    refine (occurrences_declared_class isGap_space hchild (wordEnds_parentChars _)
      (by decide)).trans ?_
    rw [occurrences_parentChars declarative_class hparent]
  rw [toList_familyText]
  exact hfirst.trans (congrArg (parent.toList :: ·) (hbetween.trans hsecond))

theorem declaredNames_interface_family :
    declaredNames "interface" (familyText parent child) = [] := by
  have hp := declarative_interface
  have hnone : occurrences (declared "interface".toList) (familyText parent child).toList = [] :=
    (occurrences_family hparent hp (not_interface_at_class _)).trans
      (occurrences_child hparent hchild hp (not_interface_at_class _))
  unfold declaredNames
  rw [hnone]
  rfl

/-! ### The base list -/

/-- The base list of the second class is read. -/
theorem ancestry_child (hne : parent ≠ "where") :
    ancestry (some '\n') (childChars parent child) =
      some (⟨child, if isIdentifier parent.toList then [parent] else []⟩, ['{', '}']) := by
  have hwhere : parent.toList ≠ "where".toList := fun h => hne (String.toList_inj.mp h)
  have hstays : ∀ c ∈ parent.toList ++ [' '], staysInList c = true := by
    refine List.forall_mem_append.mpr ⟨fun c hc => decide_eq_true ?_, by decide⟩
    have hword := hparent.2 c hc
    simp only [List.mem_cons, List.not_mem_nil, or_false, not_or]
    refine ⟨?_, ?_, ?_, ?_⟩ <;> rintro rfl <;> exact absurd hword (by decide)
  -- the list of bases runs up to the brace
  have hbase : baseText (' ' :: (parent.toList ++ [' ', '{', '}'])) =
      some (parent.toList ++ [' '], ['{', '}']) := by
    refine baseText_of_run ?_
    rw [trimStart_cons (by decide), trimStart_of_ends (hparent.blanksEnd _)]
    have hrun := run_append (s := ['{', '}']) (by simp) hstays (by decide)
    simpa only [List.append_assoc, List.cons_append, List.nil_append] using hrun
  have hmark : (some ' ').any isWord = (some '\n').any isWord := by decide
  have hfound := ancestry_eq_some hchild hbase
  rw [baseNames_word hparent hwhere isBlank_space, String.ofList_toList, String.ofList_toList,
    ancestry_congr hmark] at hfound
  exact hfound

theorem ancestries_family (hne : parent ≠ "where") :
    ancestries (familyText parent child) =
      [⟨child, if isIdentifier parent.toList then [parent] else []⟩] := by
  have hp := declarative_ancestry
  have htrim : (trimStart (behindParent parent child)).head? = some '{' := rfl
  -- the first class has no bases
  have hnot : ¬ Matches ancestry none
      ("class".toList ++ ([' '] ++ (parent.toList ++ behindParent parent child))) :=
    not_ancestry_class rfl isGap_space hparent (wordEnds_behindParent parent child)
      (no_colon_behind (by simp [htrim]) (by simp [htrim]))
  have hsplit : childChars parent child = ("class".toList ++ ([' '] ++ (child.toList ++
      ([' ', ':', ' '] ++ (parent.toList ++ [' ']))))) ++ ['{', '}'] := by
    unfold childChars parentChars
    simp only [List.append_assoc, List.cons_append, List.nil_append]
  have hread := ancestry_child hparent hchild hne
  rw [hsplit] at hread
  unfold ancestries
  refine (occurrences_family hparent hp hnot).trans ?_
  rw [hsplit, occurrencesFrom_of_found hread (by simp), occurrences_marks hp (by decide)]

/-! ### The blocks -/

theorem bodies_parent (hne : parent ≠ child) :
    bodies parent (familyText parent child).toList = [[]] := by
  have hp := declarative_block hparent
  have hheader : afterHeader typeWords (lastOf none parent.toList) (behindParent parent child) =
      some ('}' :: '\n' :: childChars parent child) :=
    afterHeader_append (u := [' ']) isWord_typeWords (by decide)
      (silent_marks isWord_typeWords (by decide))
  have hfound : occurrencesFrom (block parent.toList) none
      ("class".toList ++ ([' '] ++ (parent.toList ++ behindParent parent child))) = _ :=
    occurrences_block_class isGap_space hparent (wordEnds_behindParent parent child) rfl hheader
  have hbetween : occurrencesFrom (block parent.toList) (some '{')
      (['}', '\n'] ++ childChars parent child) =
        occurrencesFrom (block parent.toList) (some '\n') (childChars parent child) :=
    occurrencesFrom_of_nowhere (hp.nowhere (silent_marks isWord_typeWords (by decide)))
  -- the second block has another name
  have hnone : occurrencesFrom (block parent.toList) (some '\n') (childChars parent child) = [] :=
    occurrences_child hparent hchild hp (not_block_class (by decide) isGap_space hchild
      (wordEnds_parentChars _) hparent fun h => hne (String.toList_inj.mp h).symm)
  have hempty : (splitClose 0 ('}' :: '\n' :: childChars parent child)).1 = [] :=
    congrArg Prod.fst (sealed_nil.splitClose _)
  unfold bodies
  rw [toList_familyText]
  refine hfound.trans ?_
  rw [hempty]
  exact congrArg ([] :: ·) (hbetween.trans hnone)

theorem bodies_child (hne : parent ≠ child) :
    bodies child (familyText parent child).toList = [[]] := by
  have hp := declarative_block hchild
  -- the first block has another name
  have hnot : ¬ Matches (block child.toList) none
      ("class".toList ++ ([' '] ++ (parent.toList ++ behindParent parent child))) :=
    not_block_class rfl isGap_space hparent (wordEnds_behindParent parent child) hchild
      fun h => hne (String.toList_inj.mp h)
  have hsplit : parentChars parent.toList = ([' ', ':', ' '] ++ (parent.toList ++ [' '])) ++
      '{' :: ['}'] := by
    simp only [parentChars, List.append_assoc, List.cons_append, List.nil_append]
  have hplain : Plain ([' ', ':', ' '] ++ (parent.toList ++ [' '])) :=
    Plain.append (by decide) ((plain_of_isWord hparent).append (by decide))
  have hheader : afterHeader typeWords (lastOf none child.toList) (parentChars parent.toList) =
      some ['}'] := by
    rw [hsplit]
    refine afterHeader_append isWord_typeWords hplain ?_
    exact Nowhere.append (silent_marks isWord_typeWords (by decide)) (Nowhere.append
      (silent_before_mark isWord_typeWords hparent ⟨by rfl, by rfl⟩)
      (silent_marks isWord_typeWords (by decide)))
  have hfound : occurrencesFrom (block child.toList) (some '\n') (childChars parent child) = _ :=
    occurrences_block_class isGap_space hchild (wordEnds_parentChars _) (by decide) hheader
  have hempty : (splitClose 0 ['}']).1 = [] := congrArg Prod.fst (sealed_nil.splitClose [])
  have hend : occurrencesFrom (block child.toList) (some '{') ['}'] = [] :=
    occurrences_marks hp (by decide)
  rw [hend, hempty] at hfound
  exact (occurrences_family hparent hp hnot).trans hfound

/-- Each of the two classes has a block with nothing in it, so neither has members. -/
theorem membersIn_family (hne : parent ≠ child) :
    ∀ name ∈ [parent, child], membersIn (familyText parent child) name = {} := by
  intro name hname
  have hbody : bodies name (familyText parent child).toList = [[]] := by
    rcases List.mem_pair.mp hname with rfl | rfl
    · exact bodies_parent hparent hchild hne
    · exact bodies_child hparent hchild hne
  unfold membersIn
  rw [hbody]
  decide

/-- The second class is related to the first if the name of the first is an identifier. -/
theorem relationsIn_family (hwhere : parent ≠ "where") (hinterface : isInterfaceName parent = false)
    (hclasses : declaredNames "class" (familyText parent child) = [parent, child])
    (hinterfaces : interfacesIn (familyText parent child) = []) :
    relationsIn (familyText parent child) =
      if isIdentifier parent.toList then [⟨child, parent, .inheritance⟩] else [] := by
  unfold relationsIn relations
  rw [hinterfaces, ancestries_family hparent hchild hwhere, List.flatMap_singleton]
  by_cases hid : isIdentifier parent.toList = true
  · have hdeclares : Declares (familyText parent child) ⟨child, parent, .inheritance⟩ := by
      unfold Declares
      rw [hclasses]
      exact ⟨.inl (by simp), .inl (by simp)⟩
    rw [if_pos hid, if_pos hid, relations_cons]
    simp [hinterface, hdeclares]
  · rw [if_neg hid, if_neg hid]
    rfl

end

/-- **Parents that are linked.** A class and one that has it as its parent are both read, whatever
words their names are. The second is linked to the first exactly if the name of the parent is an
identifier. -/
theorem parent_linked_if_identifier (engine : Engine Float) (settings : ReadSettings)
    (supply : Supply) (hid : Function.Injective supply.idAt) (parent child : String)
    (hparent : IsWord parent.toList) (hchild : IsWord child.toList) (hne : parent ≠ child)
    (hwhere : parent ≠ "where") (hinterface : isInterfaceName parent = false) :
    engine.Gives settings (fun a => a.diagram.sketch =
        [.box .classBox parent {}, .box .classBox child {}] ++
          if isIdentifier parent.toList then [.link .inheritance (some (child, parent))] else [])
      (read engine settings supply (familyText parent child)) := by
  have hclasses : declaredNames "class" (familyText parent child) = [parent, child] := by
    unfold declaredNames
    rw [occurrences_declared_family hparent hchild, List.map_cons, List.map_singleton,
      String.ofList_toList, String.ofList_toList]
    exact eraseDups_of_nodup (by simpa using hne)
  have hinterfaces : interfacesIn (familyText parent child) = [] := by
    unfold interfacesIn
    rw [declaredNames_interface_family hparent hchild]
    rfl
  have hmembers := membersIn_family hparent hchild hne
  have hrelations :=
    relationsIn_family hparent hchild hwhere hinterface hclasses hinterfaces
  -- two empty classes, and the relation if the base has passed for a name
  refine (gives_sketch engine settings hid (familyText parent child)).imp fun a _ ha => ?_
  rw [ha, sketchIn, hclasses, hinterfaces, hrelations]
  simp only [List.map_cons, List.map_nil, List.append_nil, hmembers parent (by simp),
    hmembers child (by simp)]
  by_cases hid : isIdentifier parent.toList = true
  · simp only [if_pos hid]
    rfl
  · simp only [if_neg hid]
    rfl

/-- The name of the parent has an accent behind its first letter. -/
theorem parent_linked_if_identifier_cafe :
    Function.Injective Supply.tally.idAt ∧ IsWord "Café".toList ∧ IsWord "Étage".toList ∧
      "Café" ≠ "Étage" ∧ "Café" ≠ "where" ∧ isInterfaceName "Café" = false ∧
      ∃ a, read layeredEngine {} .tally (familyText "Café" "Étage") = .ok a ∧ a.diagram.sketch =
        [.box .classBox "Café" {}, .box .classBox "Étage" {}] ++
          if isIdentifier "Café".toList then [.link .inheritance (some ("Étage", "Café"))]
          else [] := by
  have hparent : IsWord "Café".toList := by decide +kernel
  have hchild : IsWord "Étage".toList := by decide +kernel
  have hinterface : isInterfaceName "Café" = false := by decide +kernel
  exact ⟨tally_injective, hparent, hchild, by decide, by decide, hinterface,
    (parent_linked_if_identifier layeredEngine {} .tally tally_injective "Café" "Étage" hparent
      hchild (by decide) (by decide) hinterface).exists_ok (by decide)⟩

/-- A parent whose name begins with an accent is not linked. -/
theorem parent_not_linked :
    ¬ ∀ parent child : String, IsWord parent.toList → IsWord child.toList → parent ≠ child →
      (∀ name ∈ [parent, child], name ∉ ["class", "interface", "where"]) →
        isInterfaceName parent = false →
          layeredEngine.Gives {} (fun a => a.diagram.sketch =
              [.box .classBox parent {}, .box .classBox child {},
                .link .inheritance (some (child, parent))])
            (read layeredEngine {} .tally (familyText parent child)) := by
  intro hclaim
  have hsketch : sketchIn (familyText "Étage" "Dog") =
      [.box .classBox "Étage" {}, .box .classBox "Dog" {}] := by decide +kernel
  have hlinked := hclaim "Étage" "Dog" (by decide +kernel) (by decide +kernel) (by decide)
    (by decide) (by decide +kernel)
  obtain ⟨a, hread, ha⟩ := hlinked.exists_ok (by decide)
  have hsaid := (gives_sketch layeredEngine {} tally_injective _).of_eq_ok hread
  rw [hsaid, hsketch] at ha
  exact absurd ha (by decide)

end ClassAtlas.Code
