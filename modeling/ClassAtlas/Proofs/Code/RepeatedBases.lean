import ClassAtlas.Proofs.Code.Declarable
import Mathlib.Data.List.Nodup

/-!
# Bases that are named twice

A header names the parent of a class and then what the class implements. Each of the two is free of
repetitions: the parent is the target of the first inheritance, and what is implemented several
times is listed once. But they are collected apart, and put together without a further look. So a
class that both extends and implements the same label names it twice in its header, and this is the
only way in which a label is repeated.
-/

namespace ClassAtlas.Code

open Text

variable {K : Type} {rs : List Relation} {d : Diagram K} {kind : ArrowKind}
  {label parent target : String}

/-- The parent of a class: what the first inheritance from its label leads to. -/
def IsParent (rs : List Relation) (label parent : String) : Prop :=
  ∃ before after, rs = before ++ ⟨label, parent, .inheritance⟩ :: after ∧
    ∀ r ∈ before, r.kind = .inheritance → r.source ≠ label

/-- What a class implements: the labels to which implementations from its label lead. -/
def Implements (rs : List Relation) (label target : String) : Prop :=
  ⟨label, target, .implementation⟩ ∈ rs

/-- The first target of a kind belongs to the first relation of the kind. -/
theorem head?_targetsIn : (targetsIn rs kind label).head? = some target ↔
    ∃ before after, rs = before ++ ⟨label, target, kind⟩ :: after ∧
      ∀ r ∈ before, r.kind = kind → r.source ≠ label := by
  have hnone (r : Relation) : (if r.kind = kind ∧ r.source = label then some r.target else none) =
      none ↔ (r.kind = kind → r.source ≠ label) := by
    rw [ite_eq_right_iff, ← not_and]
    exact ⟨fun h hr => absurd (h hr) (by simp), fun h hr => absurd hr h⟩
  unfold targetsIn
  rw [List.head?_filterMap, List.findSome?_eq_some_iff]
  constructor
  · rintro ⟨before, r, after, rfl, hr, hbefore⟩
    obtain ⟨⟨rfl, rfl⟩, htarget⟩ := Option.ite_none_right_eq_some.mp hr
    obtain rfl := Option.some.inj htarget
    exact ⟨before, after, rfl, fun r hr => (hnone r).mp (hbefore r hr)⟩
  · rintro ⟨before, after, rfl, hbefore⟩
    exact ⟨before, _, after, rfl, if_pos ⟨rfl, rfl⟩, fun r hr => (hnone r).mpr (hbefore r hr)⟩

/-- The bases of a class are its parent, if there is one, and what it implements, each once. -/
theorem exists_bases (d : Diagram K) (label : String) :
    ∃ (parent : Option String) (implemented : List String),
      bases d label = parent.toList ++ implemented ∧ implemented.Nodup ∧
        (∀ x, parent = some x ↔ IsParent d.relations label x) ∧
        ∀ x, x ∈ implemented ↔ Implements d.relations label x := by
  refine ⟨(targetsIn d.relations .inheritance label).head?,
    (targetsIn d.relations .implementation label).eraseDups, ?_, nodup_eraseDups _,
    fun x => head?_targetsIn, fun x => ?_⟩
  · rw [bases_eq, ← List.take_one]
    rfl
  · rw [List.mem_eraseDups, mem_targetsIn]
    rfl

/-- The block of a class begins with its header. -/
theorem header_mem_blocks {n : Node K} (hn : n ∈ d.labelledNodes) (hclass : n.kind = .classBox) :
    ∃ body, classHeader n.label (bases d n.label) :: body ∈ blocks d := by
  have hlines : nodeLines d n = classLines n (bases d n.label) :=
    if_neg (by rw [hclass]; decide)
  have hmem : nodeLines d n ∈ blocks d := List.mem_append_left _ (List.mem_map_of_mem hn)
  rw [hlines] at hmem
  exact ⟨_, hmem⟩

/-- In a list without repetition with at most one element before it, every element is counted where
it stands. -/
theorem count_toList_append {first : Option String} {others : List String} (h : others.Nodup)
    (x : String) : (first.toList ++ others).count x =
      (if first = some x then 1 else 0) + if x ∈ others then 1 else 0 := by
  rw [List.count_append, h.count]
  cases first with
  | none => simp
  | some y => simp [List.count_singleton]

/-- **A base is repeated exactly if it is extended and implemented.** In the header of every class
that is written, the bases are the parent, if there is one, and then what the class implements, each
once. So no base is named more than twice, and one is named twice exactly if it is both the parent
and implemented: a header is free of repetitions exactly if the parent is not implemented. -/
theorem base_repeated_iff {K : Type} (d : Diagram K) (n : Node K) (hn : n ∈ d.labelledNodes)
    (hclass : n.kind = .classBox) :
    (∃ body, classHeader n.label (bases d n.label) :: body ∈ blocks d) ∧
      (∃ (parent : Option String) (implemented : List String),
        bases d n.label = parent.toList ++ implemented ∧ implemented.Nodup ∧
        (∀ x, parent = some x ↔ IsParent d.relations n.label x) ∧
        ∀ x, x ∈ implemented ↔ Implements d.relations n.label x) ∧
      (∀ x, (bases d n.label).count x ≤ 2) ∧
      (∀ x, (bases d n.label).count x = 2 ↔
        IsParent d.relations n.label x ∧ Implements d.relations n.label x) ∧
      ((bases d n.label).Nodup ↔
        ∀ x, IsParent d.relations n.label x → ¬ Implements d.relations n.label x) := by
  obtain ⟨parent, implemented, hbases, hnodup, hparent, himplemented⟩ := exists_bases d n.label
  -- the implemented bases are listed once each, and the parent may be one of them
  have hcount (x : String) : (bases d n.label).count x =
      (if parent = some x then 1 else 0) + if x ∈ implemented then 1 else 0 :=
    hbases ▸ count_toList_append hnodup x
  have htwice (x : String) : (bases d n.label).count x = 2 ↔
      IsParent d.relations n.label x ∧ Implements d.relations n.label x := by
    rw [hcount, ← hparent, ← himplemented]
    split <;> split <;> simp_all
  have hle (x : String) : (bases d n.label).count x ≤ 2 := by
    rw [hcount]
    split <;> split <;> omega
  refine ⟨header_mem_blocks hn hclass, ⟨parent, implemented, hbases, hnodup, hparent,
    himplemented⟩, hle, htwice, ?_⟩
  rw [List.nodup_iff_count_le_one]
  constructor
  · intro hone x hparent himplements
    have := (htwice x).mpr ⟨hparent, himplements⟩
    have := hone x
    omega
  · intro hapart x
    have hne : (bases d n.label).count x ≠ 2 := fun heq =>
      hapart x ((htwice x).mp heq).1 ((htwice x).mp heq).2
    have := hle x
    omega

/-- A dog that both extends and implements the animal, and a cat that only extends it. Both of them
implement the pet, and the dog does so twice. -/
def litter : Diagram Nat :=
  { id := "d"
    name := "Litter"
    created := 0
    updated := 0
    elements :=
      [.node { id := "1", kind := .classBox, position := none, text := some "Dog" },
       .node { id := "2", kind := .classBox, position := none, text := some "Cat" },
       .node { id := "3", kind := .classBox, position := none, text := some "Animal" },
       .node { id := "4", kind := .interfaceBox, position := none, text := some "IPet" },
       .arrow { id := "5", kind := .implementation, source := "1", target := "4" },
       .arrow { id := "6", kind := .inheritance, source := "1", target := "3" },
       .arrow { id := "7", kind := .implementation, source := "1", target := "3" },
       .arrow { id := "8", kind := .implementation, source := "1", target := "4" },
       .arrow { id := "9", kind := .inheritance, source := "2", target := "3" },
       .arrow { id := "10", kind := .implementation, source := "2", target := "4" }] }

theorem base_repeated_iff_litter :
    ∃ dog ∈ litter.labelledNodes, ∃ cat ∈ litter.labelledNodes,
      dog.kind = .classBox ∧ cat.kind = .classBox ∧
      (IsParent litter.relations dog.label "Animal" ∧
        Implements litter.relations dog.label "Animal") ∧
      ∀ x, IsParent litter.relations cat.label x → ¬ Implements litter.relations cat.label x := by
  let dog : Node Nat := { id := "1", kind := .classBox, position := none, text := some "Dog" }
  let cat : Node Nat := { id := "2", kind := .classBox, position := none, text := some "Cat" }
  have hdog : dog ∈ litter.labelledNodes := by decide +kernel
  have hcat : cat ∈ litter.labelledNodes := by decide +kernel
  obtain ⟨-, -, -, htwice, -⟩ := base_repeated_iff litter dog hdog rfl
  obtain ⟨-, -, -, -, hapart⟩ := base_repeated_iff litter cat hcat rfl
  exact ⟨dog, hdog, cat, hcat, rfl, rfl, (htwice "Animal").mp (by decide +kernel),
    hapart.mp (by decide +kernel)⟩

/-- The header of the dog names the animal twice. -/
theorem animal_named_twice :
    (∃ dog ∈ litter.labelledNodes, dog.kind = .classBox ∧
      bases litter dog.label = ["Animal", "IPet", "Animal"] ∧ ¬ (bases litter dog.label).Nodup) ∧
    write litter = "public class Dog : Animal, IPet, Animal\n\x7b\n\x7d\n\n" ++
      "public class Cat : Animal, IPet\n\x7b\n\x7d\n\npublic class Animal\n\x7b\n\x7d\n\n" ++
      "public interface IPet\n\x7b\n\x7d\n" := by
  decide +kernel

end ClassAtlas.Code
