import Mathlib.Data.List.Basic
import Mathlib.Data.List.TakeWhile
import ClassAtlas.Proofs.Repetition
import ClassAtlas.Proofs.Text.Keywords

/-!
# Declared names

A declared name is a whole word of the text, and it counts once. So a piece of text that is made of
known words declares known words only, even where a declaration runs from one line into the next.

Two texts declare what each of them declares, unless the first one breaks off between the keyword of
a declaration and its name.
-/

namespace ClassAtlas

open Text

theorem isWord_of_mem_declaredNames {keyword text name : String}
    (h : name ∈ declaredNames keyword text) : IsWord name.toList := by
  unfold declaredNames at h
  rw [List.mem_eraseDups, List.mem_map] at h
  obtain ⟨cs, hcs, rfl⟩ := h
  obtain ⟨u, v, r, _, hp⟩ := mem_occurrencesFrom hcs
  obtain ⟨_, _, _, _, _, hname, _⟩ := declared_eq_some_iff.mp hp
  rw [String.toList_ofList]
  exact hname

theorem ne_empty_of_isWord {name : String} (h : IsWord name.toList) : name ≠ "" := by
  rintro rfl
  exact h.1 rfl

theorem ne_empty_of_mem_declaredNames (keyword text : String) :
    ∀ name ∈ declaredNames keyword text, name ≠ "" :=
  fun _ h => ne_empty_of_isWord (isWord_of_mem_declaredNames h)

theorem nodup_declaredNames (keyword text : String) : (declaredNames keyword text).Nodup :=
  nodup_eraseDups _

/-! ## Texts of known words -/

/-- A word begins at a place that is none of some names. -/
def Stray (names : List String) : PlaceProp := fun before s =>
  isBoundary before s.head? = true ∧
    ∃ w r, s = w ++ r ∧ IsWord w ∧ WordEnds r ∧ String.ofList w ∉ names

variable {names : List String} {before : Option Char} {s w rest : List Char}

theorem lexical_stray (names : List String) : Lexical (Stray names) := by
  rintro b s ⟨hb, w, r, rfl, hw, _⟩
  exact ⟨hb, hw.head r⟩

theorem nowhere_stray_word (hw : IsWord w) (hmem : String.ofList w ∈ names)
    (hr : WordEnds rest) : Nowhere (Stray names) before w rest := by
  refine nowhere_word (lexical_stray names) hw ?_
  rintro ⟨_, v, r, heq, hv, hvr, hnot⟩
  obtain ⟨rfl, _⟩ := word_split_unique hw.2 hv.2 hr hvr heq
  exact hnot hmem

theorem mem_of_nowhere_stray {keyword name : List Char} (h : Nowhere (Stray names) before s [])
    (hname : name ∈ occurrencesFrom (declared keyword) before s) : String.ofList name ∈ names := by
  obtain ⟨u, v, r, rfl, hp⟩ := mem_occurrencesFrom hname
  obtain ⟨_, t, rfl, hgap, htrim, hword, hr⟩ := declared_eq_some_iff.mp hp
  obtain ⟨g, hne, hg, hgt⟩ := gap_split hgap
  rw [htrim] at hg
  obtain ⟨c, hc, hlast⟩ := lastOf_mem hne (lastOf (lastOf before u) keyword)
  by_cases hmem : String.ofList name ∈ names
  · exact hmem
  · -- the name stands behind a blank, so a word begins there
    have hplace : ¬ Stray names (lastOf before (u ++ keyword ++ g)) (name ++ r ++ []) :=
      Nowhere.not_at (by rw [hg] at h; simpa using h) (by simp [hword.1])
    refine absurd ⟨?_, name, r, by simp, hword, hr, hmem⟩ hplace
    have hblank : (some c).any isWord = false := isWord_of_isBlank (hgt c hc)
    rw [List.append_nil, lastOf_append, lastOf_append, hlast]
    exact isBoundary_word hblank hword r

/-! ## Texts put together -/

section

variable {keyword u : List Char}

/-- Of the character before a declaration it only matters whether it belongs to a word. -/
theorem declared_congr {before' : Option Char} (h : before.any isWord = before'.any isWord) :
    declared keyword before = declared keyword before' := by
  funext s
  unfold declared isBoundary
  rw [h]

/-- A declaration begins and the text ends before its name: the rest of the text is the keyword with
nothing but blanks behind it. -/
def Begun (keyword : List Char) : PlaceProp := fun before s =>
  isBoundary before s.head? = true ∧ ∃ r, s = keyword ++ r ∧ ∀ c ∈ r, isBlank c = true

instance (keyword : List Char) (before : Option Char) (s : List Char) :
    Decidable (Begun keyword before s) :=
  decidable_of_iff
    (isBoundary before s.head? = true ∧ ∃ r ∈ literal keyword s, ∀ c ∈ r, isBlank c = true) <| by
    unfold Begun
    simp only [Option.mem_def, literal_eq_some_iff]

theorem wordy_begun (hk : IsWord keyword) : Wordy (Begun keyword) := by
  rintro b s ⟨_, r, rfl, _⟩
  exact hk.head r

/-- The text does not end within a word. -/
def WordDone (s : List Char) : Prop := (lastOf none s).any isWord = false

instance (s : List Char) : Decidable (WordDone s) := inferInstanceAs (Decidable (_ = _))

theorem wordDone_append_mark (u : List Char) {c : Char} (hc : isWord c = false) :
    WordDone (u ++ [c]) := by
  unfold WordDone
  rw [lastOf_append]
  exact hc

theorem WordDone.of_append {u v : List Char} (h : WordDone (u ++ v)) : WordDone v := by
  cases v with
  | nil => rfl
  | cons c v =>
    unfold WordDone at h
    rwa [lastOf_append] at h

theorem WordDone.trimStart (h : WordDone s) : WordDone (trimStart s) := by
  obtain ⟨g, hg, _⟩ := trimStart_split s
  rw [hg] at h
  exact h.of_append

theorem WordDone.not_isWord (h : WordDone s) : ¬ IsWord s := by
  intro hs
  have hword := lastOf_word hs none
  rw [h] at hword
  exact absurd hword (by simp)

/-- Where two texts begin with a word, the first one does so and goes on, unless it ends within the
word. -/
theorem WordDone.split {w u t : List Char} (hu : WordDone u) (hne : u ≠ []) (hw : IsWord w)
    (h : u ++ rest = w ++ t) : ∃ v, v ≠ [] ∧ WordDone v ∧ u = w ++ v ∧ t = v ++ rest := by
  rcases List.append_eq_append_iff.mp h with ⟨x, hx, _⟩ | ⟨v, hv, ht⟩
  · -- the first text would be the beginning of a word
    have hall : ∀ c ∈ u, isWord c = true := fun c hc => hw.2 c (hx ▸ List.mem_append_left _ hc)
    exact absurd ⟨hne, hall⟩ hu.not_isWord
  · rw [hv] at hu
    refine ⟨v, ?_, hu.of_append, hv, ht⟩
    rintro rfl
    exact hu.not_isWord (by rwa [List.append_nil])

/-- A declaration that begins in a text is read to its end in the text, unless the text ends before
its name. -/
theorem declared_append (hk : IsWord keyword) (hs : WordDone s) (hne : s ≠ [])
    (hbegun : ¬ Begun keyword before s) (rest : List Char) :
    declared keyword before (s ++ rest) =
      (declared keyword before s).map fun (name, r) => (name, r ++ rest) := by
  have hhead : (s ++ rest).head? = s.head? := List.head?_append_of_ne_nil s hne
  refine Option.ext fun found => ?_
  rw [Option.map_eq_some_iff]
  constructor
  · obtain ⟨name, r'⟩ := found
    intro h
    obtain ⟨hb, t, ht, hgap, htrim, hname, hr'⟩ := declared_eq_some_iff.mp h
    rw [hhead] at hb
    -- the keyword, the blanks and the name end within the first text
    obtain ⟨v, hvne, hv, rfl, rfl⟩ := hs.split hne hk ht
    have hblanks : trimStart v ≠ [] := by
      intro hnil
      exact hbegun ⟨hb, v, rfl, List.dropWhile_eq_nil_iff.mp hnil⟩
    rw [trimStart_append_of_ne_nil hblanks] at htrim
    obtain ⟨r, hrne, _, hvr, rfl⟩ := hv.trimStart.split hblanks hname htrim
    rw [blanksEnd_append hvne] at hgap
    rw [wordEnds_append hrne] at hr'
    exact ⟨(name, r), declared_eq_some_iff.mpr ⟨hb, v, rfl, hgap, hvr, hname, hr'⟩, rfl⟩
  · rintro ⟨⟨name, r⟩, h, rfl⟩
    obtain ⟨hb, t, rfl, hgap, htrim, hname, hr⟩ := declared_eq_some_iff.mp h
    have htne : t ≠ [] := by
      rintro rfl
      exact hgap blanksEnd_nil
    have hrne : r ≠ [] := by
      rintro rfl
      have hdone : WordDone (trimStart t) := hs.of_append.trimStart
      rw [htrim, List.append_nil] at hdone
      exact hdone.not_isWord hname
    have htrim' : trimStart (t ++ rest) = name ++ (r ++ rest) := by
      rw [trimStart_append_of_ne_nil (by simp [htrim, hrne]), htrim, List.append_assoc]
    rw [← hhead] at hb
    rw [← blanksEnd_append htne rest] at hgap
    rw [← wordEnds_append hrne rest] at hr
    exact declared_eq_some_iff.mpr
      ⟨hb, t ++ rest, List.append_assoc .., hgap, htrim', hname, hr⟩

theorem unbroken_declared (hk : IsWord keyword) (hu : WordDone u)
    (hbegun : Nowhere (Begun keyword) before u []) (rest : List Char) :
    Unbroken (declared keyword) before u rest := by
  induction u generalizing before with
  | nil => trivial
  | cons c u ih =>
    obtain ⟨hplace, hrest⟩ := hbegun
    rw [List.append_nil] at hplace
    exact ⟨declared_append hk hu (by simp) hplace rest, ih (hu.of_append (u := [c])) hrest⟩

/-- What is declared in two texts, where no declaration runs from the first one into the second. -/
theorem occurrences_declared_append (hk : IsWord keyword) (hu : WordDone u)
    (hbegun : Nowhere (Begun keyword) none u []) (rest : List Char) :
    occurrences (declared keyword) (u ++ rest) =
      occurrences (declared keyword) u ++ occurrences (declared keyword) rest := by
  have hbefore : declared keyword (lastOf none u) = declared keyword none := declared_congr hu
  have hscan := occurrencesFrom_append (unbroken_declared hk hu hbegun rest)
  rwa [occurrencesFrom_congr hbefore] at hscan

/-- Behind a mark that is no blank a declaration has its name or has not begun. -/
theorem nowhere_begun_of_mark (hk : IsWord keyword) {d : Char} (hword : isWord d = false)
    (hblank : isBlank d = false) {g : List Char} (hg : ∀ c ∈ g, isWord c = false) :
    Nowhere (Begun keyword) before (u ++ d :: g) [] := by
  have hmarks : ∀ b, Nowhere (Begun keyword) b (d :: g) [] := fun b =>
    nowhere_marks (wordy_begun hk) (List.forall_mem_cons.mpr ⟨hword, hg⟩)
  refine Nowhere.append ?_ (hmarks _)
  rw [List.append_nil]
  induction u generalizing before with
  | nil => trivial
  | cons c u ih =>
    refine ⟨?_, ih⟩
    -- whatever begins here runs through the mark, which is of no word and no gap
    rintro ⟨_, r, hr, hall⟩
    have hd : d ∈ keyword ++ r := by
      rw [← hr]
      simp
    rcases List.mem_append.mp hd with hd | hd
    · rw [hk.2 d hd] at hword
      exact absurd hword (by simp)
    · rw [hall d hd] at hblank
      exact absurd hblank (by simp)

end

/-- No declaration of a text is left without its name at the end of the text. -/
def Finished (keyword text : String) : Prop := Nowhere (Begun keyword.toList) none text.toList []

instance (keyword text : String) : Decidable (Finished keyword text) :=
  inferInstanceAs (Decidable (Nowhere ..))

/-- Two texts declare what the first one declares, and then what the second one does. -/
theorem declaredNames_append {keyword text : String} (hk : IsWord keyword.toList)
    (hdone : WordDone text.toList) (hfinished : Finished keyword text) (rest : String) :
    declaredNames keyword (text ++ rest) =
      (declaredNames keyword text ++ declaredNames keyword rest).eraseDups := by
  unfold declaredNames
  rw [eraseDups_append_eraseDups, String.toList_append,
    occurrences_declared_append hk hdone hfinished, List.map_append]

end ClassAtlas
