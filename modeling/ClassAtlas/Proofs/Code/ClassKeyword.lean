import ClassAtlas.Proofs.Code.BaseLists
import ClassAtlas.Proofs.Code.BlockHeaders

/-!
# At the keyword of a class

Where the keyword of a class stands before a word, three patterns of the reader take notice. The one
that looks for names takes the word, whatever it is. The one that looks for base lists goes by the
mark behind it, and the one that looks for blocks by the word itself and by the header. Where a
pattern does not match, the keyword and the word are passed over.
-/

namespace ClassAtlas.Code

open Text

variable {α : Type} {p : Pattern α} {before : Option Char} {g w name u s t r : List Char}

/-! ## Headers -/

theorem afterHeader_of_heads (h : Heads typeWords before s) :
    afterHeader typeWords before s = none := by
  cases s with
  | nil => rfl
  | cons c s => rw [afterHeader, declares_of_heads prefixFree_typeWords h, if_pos rfl]

/-! ## The keyword and a word -/

theorem isWord_class : IsWord "class".toList := by decide +kernel

theorem class_mem_typeWords : "class".toList ∈ typeWords := by decide +kernel

theorem declarative_class : Declarative (declared "class".toList) :=
  @declarative_declared .classType class_mem_typeWords

theorem declarative_interface : Declarative (declared "interface".toList) :=
  @declarative_declared .interfaceType (by decide +kernel)

section

variable (hb : before.any isWord = false) (hg : IsGap g) (hw : IsWord w) (ht : WordEnds t)

include hg hw

theorem trimStart_gap_word : trimStart (g ++ (w ++ t)) = w ++ t := by
  rw [trimStart_append hg.2, trimStart_of_ends (hw.blanksEnd t)]

include hb

theorem heads_class : Heads typeWords before ("class".toList ++ (g ++ (w ++ t))) := by
  refine ⟨isBoundary_word hb isWord_class _, "class".toList, class_mem_typeWords, _, rfl, ?_⟩
  unfold wordFollows
  rw [trimStart_gap_word hg hw, hw.head t, Bool.and_true]
  simpa [BlanksEnd] using hg.not_blanksEnd (w ++ t)

include ht

/-- The word behind the keyword is the name of a class. -/
theorem declared_class :
    declared "class".toList before ("class".toList ++ (g ++ (w ++ t))) = some (w, t) :=
  declared_eq_some_iff.mpr ⟨isBoundary_word hb isWord_class _, _, rfl, hg.not_blanksEnd _,
    trimStart_gap_word hg hw, hw, ht⟩

/-- A block is found behind the keyword and its name, if there is a header. -/
theorem block_class (hname : IsWord name) :
    block name before ("class".toList ++ (g ++ (w ++ t))) =
      if w = name then
        (afterHeader typeWords (lastOf none name) t).map fun r => ((splitClose 0 r).1, r)
      else none := by
  have hboundary := isBoundary_word hb isWord_class (g ++ (w ++ t))
  have hone := oneOf_append prefixFree_typeWords class_mem_typeWords (g ++ (w ++ t))
  split
  · rename_i heq
    subst heq
    have hgap : gapAndName w (g ++ (w ++ t)) = some t :=
      (gapAndName_eq_some_iff hname).mpr ⟨hg.not_blanksEnd _, trimStart_gap_word hg hw⟩
    have hend := (isBoundary_after (lastOf_word hname none)).mpr ht
    have hlast := lastOf_eq_getLastD hname.1 none ' '
    rw [hlast] at hend ⊢
    unfold block
    simp only [guard, hboundary, hone, hgap, hend, if_true, Option.pure_def, Option.bind_eq_bind,
      Option.bind_some]
    cases afterHeader typeWords (some (w.getLastD ' ')) t <;> rfl
  · rename_i hne
    cases hblock : block name before ("class".toList ++ (g ++ (w ++ t))) with
    | none => rfl
    | some found =>
      -- a block that is found has its name behind the keyword, and the only word there is `w`
      obtain ⟨_, v, hv, x, y, hsplit, hblank, htrim, hend⟩ := of_block hname hblock
      obtain ⟨_, rfl⟩ := word_split_unique isWord_class.2 (isWord_typeWords v hv).2
        (wordEnds_of_blanks (hg.not_blanksEnd _)) (wordEnds_of_blanks hblank) hsplit
      rw [trimStart_gap_word hg hw] at htrim
      exact absurd (word_split_unique hw.2 hname.2 ht hend htrim).1 hne

/-- No block is found behind the keyword and another name. -/
theorem not_block_class (hname : IsWord name) (hne : w ≠ name) :
    ¬ Matches (block name) before ("class".toList ++ (g ++ (w ++ t))) := by
  unfold Matches
  rw [block_class hb hg hw ht hname, if_neg hne]
  simp

/-- Where the header does not reach a brace, none is found either. -/
theorem not_block_of_header (hname : IsWord name)
    (hr : afterHeader typeWords (lastOf none w) t = none) :
    ¬ Matches (block name) before ("class".toList ++ (g ++ (w ++ t))) := by
  by_cases hne : w = name
  · subst hne
    unfold Matches
    rw [block_class hb hg hw ht hw, if_pos rfl, hr]
    simp
  · exact not_block_class hb hg hw ht hname hne

/-- Where no colon follows there is no base list. -/
theorem not_ancestry_class
    (hcolon : (trimStart (afterTypeParameters (trimStart t))).head? ≠ some ':') :
    ¬ Matches ancestry before ("class".toList ++ (g ++ (w ++ t))) := by
  have hboundary := isBoundary_word hb isWord_class (g ++ (w ++ t))
  have hliteral : literal [':'] (trimStart (afterTypeParameters (trimStart t))) = none := by
    cases hread : literal [':'] (trimStart (afterTypeParameters (trimStart t))) with
    | none => rfl
    | some r =>
      rw [literal_eq_some_iff.mp hread] at hcolon
      exact absurd rfl hcolon
  unfold Matches ancestry
  simp only [guard, hboundary, literal_append, gap_append hg (hw.blanksEnd t), word_append hw ht,
    hliteral, if_true, Option.pure_def, Option.bind_eq_bind, Option.bind_some, Option.bind_none,
    Option.isSome_none, Bool.false_eq_true, not_false_eq_true]

end

/-- Where there are no type parameters either, a colon would have to follow at once. -/
theorem no_colon_behind (hparameters : (trimStart t).head? ≠ some '<')
    (hcolon : (trimStart t).head? ≠ some ':') :
    (trimStart (afterTypeParameters (trimStart t))).head? ≠ some ':' := by
  rwa [afterTypeParameters_eq hparameters, trimStart_of_ends (blanksEnd_trimStart t)]

/-! ## What a scan finds -/

section

variable (hg : IsGap g) (hw : IsWord w) (ht : WordEnds t)

include hg hw ht

/-- Where a pattern does not match, the keyword and the word behind it are passed over, unless the
word is a keyword itself and heads another one. -/
theorem occurrences_pass_class (hp : Declarative p)
    (hquiet : w ∉ typeWords ∨ wordFollows t = false)
    (hnot : ¬ Matches p before ("class".toList ++ (g ++ (w ++ t)))) :
    occurrencesFrom p before ("class".toList ++ (g ++ (w ++ t))) =
      occurrencesFrom p (lastOf none w) t := by
  have hword : Silent typeWords (lastOf (lastOf before "class".toList) g) w t := by
    rcases hquiet with hnot | hfollows
    · exact silent_word isWord_typeWords hw hnot ht
    · exact silent_last isWord_typeWords hw ht hfollows
  -- keyword, gap and name, and none of them starts a match
  have hnone : Nowhere (Matches p) before ("class".toList ++ (g ++ w)) t := by
    refine Nowhere.append (nowhere_word hp.lexical isWord_class ?_)
      (hp.nowhere (Nowhere.append (silent_blanks isWord_typeWords hg.2) hword))
    rwa [List.append_assoc]
  have htext : "class".toList ++ (g ++ (w ++ t)) = ("class".toList ++ (g ++ w)) ++ t := by
    simp only [List.append_assoc]
  rw [htext, occurrencesFrom_of_nowhere hnone, lastOf_append, lastOf_append,
    lastOf_congr hw.1 _ none]

variable (hb : before.any isWord = false)

include hb

theorem occurrences_declared_class :
    occurrencesFrom (declared "class".toList) before ("class".toList ++ (g ++ (w ++ t))) =
      w :: occurrencesFrom (declared "class".toList) (lastOf none w) t := by
  have hfound :
      declared "class".toList before (("class".toList ++ (g ++ w)) ++ t) = some (w, t) := by
    simpa only [List.append_assoc] using declared_class hb hg hw ht
  have htext : "class".toList ++ (g ++ (w ++ t)) = ("class".toList ++ (g ++ w)) ++ t := by
    simp only [List.append_assoc]
  rw [htext, occurrencesFrom_of_found hfound (by simp), lastOf_append, lastOf_append,
    lastOf_congr hw.1 _ none]

/-- Behind a header the search goes on in the body. -/
theorem occurrences_block_class (hr : afterHeader typeWords (lastOf none w) t = some r) :
    occurrencesFrom (block w) before ("class".toList ++ (g ++ (w ++ t))) =
      (splitClose 0 r).1 :: occurrencesFrom (block w) (some '{') r := by
  obtain ⟨u, rfl, _, _⟩ :=
    (afterHeader_eq_some_iff isWord_typeWords prefixFree_typeWords).mp hr
  have htext : "class".toList ++ (g ++ (w ++ (u ++ '{' :: r))) =
      ("class".toList ++ (g ++ (w ++ (u ++ ['{'])))) ++ r := by
    simp only [List.append_assoc, List.singleton_append]
  -- the reader is behind the opening brace, and the body is searched as well
  have hfound : block w before (("class".toList ++ (g ++ (w ++ (u ++ ['{'])))) ++ r) =
      some ((splitClose 0 r).1, r) := by
    rw [← htext, block_class hb hg hw ht hw, if_pos rfl, hr, Option.map_some]
  rw [htext, occurrencesFrom_of_found hfound (by simp)]
  simp only [lastOf_append, lastOf_cons, lastOf_nil]

end

/-- No interface is declared at the keyword of a class. -/
theorem not_interface_at_class (s : List Char) :
    ¬ Matches (declared "interface".toList) before ("class".toList ++ s) := by
  intro h
  obtain ⟨⟨_, _⟩, heq⟩ := Option.isSome_iff_exists.mp h
  obtain ⟨_, t, ht, _⟩ := declared_eq_some_iff.mp heq
  exact absurd (List.cons.inj ht).1 (by decide)

end ClassAtlas.Code
