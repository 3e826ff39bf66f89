import ClassAtlas.Proofs.Code.Silence

/-!
# Where no member begins

A member begins with an access word, which the reader accepts even at the end of a longer word. What
decides is the text behind it: after blanks, and perhaps after a second access word and modifiers, a
type and a name have to follow, and then accessors or a parameter list. A text *refuses* a member if
nothing of the kind follows.
-/

namespace ClassAtlas.Code

open Text

variable {tail : List Char → Option (List Char)} {before : Option Char} {c : Char}
  {s r w rest : List Char}

/-- No type and name with what is required behind them follow an access word. -/
def Refuses (tail : List Char → Option (List Char)) (s : List Char) : Prop :=
  (typePlaces s).findSome? (typeAndName tail) = none

theorem of_member (h : Matches (member tail) before s) :
    ∃ w ∈ accessWords, ∃ r, s = w ++ r ∧ ¬ Refuses tail r := by
  obtain ⟨⟨m, t⟩, heq⟩ := Option.isSome_iff_exists.mp h
  unfold member at heq
  simp only [Option.bind_eq_bind, Option.bind_eq_some_iff] at heq
  obtain ⟨⟨w, r⟩, hone, ⟨_, _⟩, hfind, _⟩ := heq
  obtain ⟨hw, rfl⟩ := oneOf_eq_some hone
  refine ⟨w, hw, r, rfl, ?_⟩
  intro href
  rw [Refuses] at href
  rw [href] at hfind
  exact absurd hfind (by simp)

theorem wordy_member : Wordy (Matches (member tail)) := by
  intro b s h
  obtain ⟨w, hw, r, rfl, _⟩ := of_member h
  exact (isWord_accessWords w hw).head r

/-! ## Places of a type -/

/-- The places behind one access word. -/
def placesBehind (s : List Char) : List (List Char) :=
  match gap s with
  | some s => reach (skipWord memberModifiers) s.length s
  | none => []

/-- The places behind a second access word, if there is one. -/
def placesBehindSecond (s : List Char) : List (List Char) :=
  match (gap s).bind (oneOf secondAccessWords) with
  | some (_, s) => placesBehind s
  | none => []

theorem typePlaces_eq (s : List Char) : typePlaces s = placesBehindSecond s ++ placesBehind s := rfl

theorem placesBehind_of_ends (h : BlanksEnd s) : placesBehind s = [] := by
  unfold placesBehind
  rw [gap_eq_none h]

theorem refuses_of_ends (h : BlanksEnd s) : Refuses tail s := by
  have hsecond : placesBehindSecond s = [] := by
    unfold placesBehindSecond
    rw [gap_eq_none h]
    rfl
  rw [Refuses, typePlaces_eq, placesBehind_of_ends h, hsecond]
  rfl

/-- A word refuses members wherever an access word may end in it, if the text behind it does. -/
theorem nowhere_member_word (hw : ∀ c ∈ w, isWord c = true) (hr : WordEnds rest)
    (href : Refuses tail rest) : Nowhere (Matches (member tail)) before w rest := by
  induction w generalizing before with
  | nil => trivial
  | cons c w ih =>
    refine ⟨?_, ih fun d hd => hw d (List.mem_cons_of_mem _ hd)⟩
    intro hmatch
    obtain ⟨v, hv, t, heq, hnot⟩ := of_member hmatch
    rw [← List.cons_append] at heq
    -- an access word that ends inside the word is followed by no blank
    rcases word_prefix hw (isWord_accessWords v hv).2 hr heq with ⟨_, rfl⟩ | hends
    · exact hnot href
    · exact hnot (refuses_of_ends hends)

/-! ## Words behind an access word -/

theorem isWord_memberModifiers : ∀ w ∈ memberModifiers, IsWord w := by decide +kernel

theorem isWord_secondAccessWords : ∀ w ∈ secondAccessWords, IsWord w := by decide +kernel

section

variable (hw : IsWord w) (hc : isWord c = false) (hb : isBlank c = false) (s : List Char)

include hw hc hb

/-- Behind a second access word stands what follows it. -/
theorem placesBehindSecond_word :
    ∀ p ∈ placesBehindSecond (' ' :: (w ++ ' ' :: c :: s)), p = c :: s := by
  have hspace : gap (' ' :: (w ++ ' ' :: c :: s)) = some (w ++ ' ' :: c :: s) :=
    gap_space (hw.blanksEnd _)
  have hgap : gap (' ' :: c :: s) = some (c :: s) := gap_space (blanksEnd_cons.mpr hb)
  have hnone := skipWord_eq_none isWord_memberModifiers (s := c :: s) hc
  intro p hp
  unfold placesBehindSecond at hp
  rw [hspace, Option.bind_some] at hp
  cases hone : oneOf secondAccessWords (w ++ ' ' :: c :: s) with
  | none => rw [hone] at hp; exact absurd hp (by simp)
  | some pair =>
    obtain ⟨v, t⟩ := pair
    rw [hone] at hp
    dsimp only at hp
    -- the word is a second access word and is passed over, or the reader gives up inside it
    rcases oneOf_word isWord_secondAccessWords hw (wordEnds_space _) hone with ⟨_, rfl⟩ | hends
    · rw [placesBehind, hgap] at hp
      dsimp only at hp
      rw [reach_of_none hnone, List.mem_singleton] at hp
      exact hp
    · rw [placesBehind_of_ends hends] at hp
      exact absurd hp (by simp)

/-- Behind the first access word stands a word, and if that is a modifier, what follows it. -/
theorem placesBehind_word :
    ∀ p ∈ placesBehind (' ' :: (w ++ ' ' :: c :: s)), p = c :: s ∨ p = w ++ ' ' :: c :: s := by
  have hspace : gap (' ' :: (w ++ ' ' :: c :: s)) = some (w ++ ' ' :: c :: s) :=
    gap_space (hw.blanksEnd _)
  have hgap : gap (' ' :: c :: s) = some (c :: s) := gap_space (blanksEnd_cons.mpr hb)
  have hnone := skipWord_eq_none isWord_memberModifiers (s := c :: s) hc
  intro p hp
  rw [placesBehind, hspace] at hp
  dsimp only at hp
  cases hskip : skipWord memberModifiers (w ++ ' ' :: c :: s) with
  | none =>
    rw [reach_of_none hskip, List.mem_singleton] at hp
    exact Or.inr hp
  | some r =>
    -- the word is a modifier: it is passed over, and the reader goes no further
    obtain ⟨_, hr⟩ := skipWord_word isWord_memberModifiers hw (wordEnds_space _) hskip
    obtain rfl := Option.some.inj (hgap.symm.trans hr)
    obtain ⟨n, hn⟩ : ∃ n, (w ++ ' ' :: c :: s).length = n + 1 :=
      Nat.exists_eq_succ_of_ne_zero (by simp)
    rw [hn, reach, hskip] at hp
    dsimp only at hp
    rw [reach_of_none hnone] at hp
    simpa using hp

/-- Behind an access word and one space, the places are the word that follows and, if it is a second
access word or a modifier, what stands behind it. -/
theorem typePlaces_word :
    ∀ p ∈ typePlaces (' ' :: (w ++ ' ' :: c :: s)), p = c :: s ∨ p = w ++ ' ' :: c :: s := by
  intro p hp
  rw [typePlaces_eq] at hp
  rcases List.mem_append.mp hp with hp | hp
  · exact Or.inl (placesBehindSecond_word hw hc hb s p hp)
  · exact placesBehind_word hw hc hb s p hp

end

/-- The same for a word that is no modifier or stands before a mark: it is the only place. -/
theorem typePlaces_word_only (hw : IsWord w) (hs : WordEnds s)
    (hstop : (w ∉ secondAccessWords ∧ w ∉ memberModifiers) ∨ BlanksEnd s) :
    typePlaces (' ' :: (w ++ s)) = [w ++ s] := by
  have hspace : gap (' ' :: (w ++ s)) = some (w ++ s) := gap_space (hw.blanksEnd s)
  have hsecond : placesBehindSecond (' ' :: (w ++ s)) = [] := by
    unfold placesBehindSecond
    rw [hspace, Option.bind_some]
    cases hone : oneOf secondAccessWords (w ++ s) with
    | none => rfl
    | some pair =>
      obtain ⟨v, t⟩ := pair
      refine placesBehind_of_ends ?_
      -- either the whole word is an access word, or it goes on behind one
      rcases oneOf_word isWord_secondAccessWords hw hs hone with ⟨rfl, rfl⟩ | hends
      · rcases hstop with hnot | hends
        · exact absurd (oneOf_eq_some hone).1 hnot.1
        · exact hends
      · exact hends
  have hskip : skipWord memberModifiers (w ++ s) = none := by
    cases hskip : skipWord memberModifiers (w ++ s) with
    | none => rfl
    | some r =>
      obtain ⟨hmem, hgap⟩ := skipWord_word isWord_memberModifiers hw hs hskip
      rcases hstop with hnot | hends
      · exact absurd hmem hnot.2
      · rw [gap_eq_none hends] at hgap
        exact absurd hgap (by simp)
  rw [typePlaces_eq, hsecond, List.nil_append, placesBehind, hspace]
  exact reach_of_none hskip _

/-! ## Types and names -/

/-- A mark that ends the name of a type. -/
def EndsType (c : Char) : Prop := isWord c = false ∧ c ∉ ['.', '<', '[', '?']

instance (c : Char) : Decidable (EndsType c) := inferInstanceAs (Decidable (_ ∧ _))

theorem typeName_word (hw : IsWord w) (hc : EndsType c) (s : List Char) :
    typeName (w ++ c :: s) = some (w, c :: s) := by
  obtain ⟨hword, hmarks⟩ := hc
  simp only [List.mem_cons, List.not_mem_nil, or_false, not_or] at hmarks
  obtain ⟨hdot, hangle, hsquare, hquestion⟩ := hmarks
  have hrun : run (fun d => isWord d || d == '.') (w ++ c :: s) = some (w, c :: s) := by
    refine run_append hw.1 (fun d hd => by simp [hw.2 d hd]) ?_
    show (isWord c || c == '.') = false
    simp [hword, hdot]
  -- none of the optional parts of a type begins with the mark
  have harguments : optionalArguments (c :: s) = ([], c :: s) := by
    unfold optionalArguments
    split
    · rename_i heq
      exact absurd (List.cons.inj heq).1 hangle
    · rfl
  have hsquares : arrayMarks (c :: s) = ([], c :: s) := by
    unfold arrayMarks
    split
    · rename_i heq
      exact absurd (List.cons.inj heq).1 hsquare
    · rfl
  have hmark : optionalMark (c :: s) = ([], c :: s) := by
    unfold optionalMark
    split
    · rename_i heq
      exact absurd (List.cons.inj heq).1 hquestion
    · rfl
  unfold typeName
  simp only [hrun, Option.bind_eq_bind, Option.bind_some, harguments, hsquares, hmark,
    List.append_nil]

theorem typeAndName_of_mark (hc : isWord c = false) (hdot : c ≠ '.') (s : List Char) :
    typeAndName tail (c :: s) = none := by
  have hrun : run (fun d => isWord d || d == '.') (c :: s) = none := by
    refine run_eq_none ?_
    show (isWord c || c == '.') = false
    simp [hc, hdot]
  unfold typeAndName typeName
  rw [hrun]
  rfl

/-- A word alone is no type and name. -/
theorem typeAndName_of_word (hw : IsWord w) (hc : EndsType c) (hb : isBlank c = false)
    (s : List Char) : typeAndName tail (w ++ c :: s) = none := by
  unfold typeAndName
  rw [typeName_word hw hc]
  simp [gap_eq_none (blanksEnd_cons.mpr hb)]

theorem typeAndName_of_word_space (hw : IsWord w) (hc : isWord c = false) (hb : isBlank c = false)
    (s : List Char) : typeAndName tail (w ++ ' ' :: c :: s) = none := by
  unfold typeAndName
  rw [typeName_word hw (by decide)]
  simp [gap_space (blanksEnd_cons.mpr hb), word_eq_none (wordEnds_cons.mpr hc)]

/-! ## Texts that refuse -/

theorem refuses_mark (hc : isWord c = false) (hb : isBlank c = false) (hdot : c ≠ '.')
    (s : List Char) : Refuses tail (' ' :: c :: s) := by
  have hspace : gap (' ' :: c :: s) = some (c :: s) := gap_space (blanksEnd_cons.mpr hb)
  have hsecond : placesBehindSecond (' ' :: c :: s) = [] := by
    unfold placesBehindSecond
    rw [hspace, Option.bind_some, oneOf_eq_none isWord_secondAccessWords (wordEnds_cons.mpr hc)]
  have hskip := skipWord_eq_none isWord_memberModifiers (s := c :: s) hc
  rw [Refuses, typePlaces_eq, hsecond, List.nil_append, placesBehind, hspace]
  dsimp only
  rw [reach_of_none hskip, List.findSome?_cons, typeAndName_of_mark hc hdot]
  rfl

/-- One word before a mark is no type and name. -/
theorem refuses_word_mark (hw : IsWord w) (hc : EndsType c) (hb : isBlank c = false)
    (s : List Char) : Refuses tail (' ' :: (w ++ c :: s)) := by
  rw [Refuses, typePlaces_word_only hw (wordEnds_cons.mpr hc.1)
    (Or.inr (blanksEnd_cons.mpr hb)), List.findSome?_cons, typeAndName_of_word hw hc hb]
  rfl

/-- Nor is one word before a space and a mark. -/
theorem refuses_word_space_mark (hw : IsWord w) (hc : isWord c = false) (hb : isBlank c = false)
    (hdot : c ≠ '.') (s : List Char) : Refuses tail (' ' :: (w ++ ' ' :: c :: s)) := by
  rw [Refuses, List.findSome?_eq_none_iff]
  intro p hp
  rcases typePlaces_word hw hc hb s p hp with rfl | rfl
  · exact typeAndName_of_mark hc hdot s
  · exact typeAndName_of_word_space hw hc hb s

end ClassAtlas.Code
