import ClassAtlas.Code.Block
import ClassAtlas.Proofs.Text.Words

/-!
# Rows of words

The reader steps over known words, each with the blanks behind it, and tries the places that it
reaches in this way, the last one first. These are the places behind the rows of known words that
the text begins with. If no known word begins another one, a row is passed over in whatever order
the words are tried, and where the row cannot go on, the place behind it is tried first.
-/

namespace ClassAtlas.Code

open Text

variable {words : List (List Char)} {before : Option Char} {s r w g p : List Char}

/-! ## Known words -/

/-- None of the words begins another one. -/
def PrefixFree (words : List (List Char)) : Prop := ∀ v ∈ words, ∀ w ∈ words, v <+: w → v = w

instance (words : List (List Char)) : Decidable (PrefixFree words) :=
  inferInstanceAs (Decidable (∀ v ∈ words, ∀ w ∈ words, v <+: w → v = w))

/-- Where no word begins another one, it makes no difference in which order they are tried. -/
theorem oneOf_append (hfree : PrefixFree words) (hw : w ∈ words) (s : List Char) :
    oneOf words (w ++ s) = some (w, s) := by
  cases hone : oneOf words (w ++ s) with
  | none =>
    have hliteral := List.findSome?_eq_none_iff.mp hone w hw
    rw [literal_append] at hliteral
    exact absurd hliteral (by simp)
  | some found =>
    obtain ⟨v, r⟩ := found
    obtain ⟨hv, heq⟩ := oneOf_eq_some hone
    -- of two words at one place, one is a prefix of the other
    have hvw : v = w := by
      rcases List.append_eq_append_iff.mp heq with ⟨t, ht, _⟩ | ⟨t, ht, _⟩
      · exact (hfree w hw v hv ⟨t, ht.symm⟩).symm
      · exact hfree v hv w hw ⟨t, ht.symm⟩
    rw [hvw] at heq ⊢
    rw [List.append_cancel_left heq]

theorem skipWord_append (hfree : PrefixFree words) (hw : w ∈ words) (hg : IsGap g)
    (hs : BlanksEnd s) : skipWord words (w ++ (g ++ s)) = some s := by
  unfold skipWord
  rw [oneOf_append hfree hw, Option.bind_some]
  exact gap_append hg hs

theorem skipWord_eq_some (h : skipWord words s = some r) :
    ∃ w ∈ words, ∃ g, s = w ++ (g ++ r) ∧ g ≠ [] ∧ ∀ c ∈ g, isBlank c = true := by
  unfold skipWord at h
  obtain ⟨⟨w, t⟩, hone, hgap⟩ := Option.bind_eq_some_iff.mp h
  obtain ⟨hw, rfl⟩ := oneOf_eq_some hone
  obtain ⟨hblank, rfl⟩ := gap_eq_some_iff.mp hgap
  obtain ⟨g, hne, ht, hg⟩ := gap_split hblank
  exact ⟨w, hw, g, by rw [← ht], hne, hg⟩

theorem oneOf_eq_none (hwords : ∀ w ∈ words, IsWord w) (hs : WordEnds s) :
    oneOf words s = none := by
  cases hone : oneOf words s with
  | none => rfl
  | some pair =>
    obtain ⟨w, r⟩ := pair
    obtain ⟨hw, rfl⟩ := oneOf_eq_some hone
    have hhead := (hwords w hw).head r
    rw [show (w ++ r).head?.any isWord = false from hs] at hhead
    exact absurd hhead (by simp)

theorem skipWord_eq_none (hwords : ∀ w ∈ words, IsWord w) (hs : WordEnds s) :
    skipWord words s = none := by
  unfold skipWord
  rw [oneOf_eq_none hwords hs]
  rfl

/-- One word at the start of another is all of it, or the other goes on behind it. -/
theorem word_prefix {v : List Char} (hw : ∀ c ∈ w, isWord c = true)
    (hv : ∀ c ∈ v, isWord c = true) (hs : WordEnds s) (h : w ++ s = v ++ r) :
    (v = w ∧ r = s) ∨ BlanksEnd r := by
  rcases List.append_eq_append_iff.mp h with ⟨x, hx, hrest⟩ | ⟨x, hx, hr⟩
  · cases x with
    | nil => exact Or.inl ⟨by simpa using hx, by simpa using hrest.symm⟩
    | cons d x =>
      -- the first word would go on where the text behind the second begins
      have hd := hv d (by rw [hx]; simp)
      rw [hrest, List.cons_append, wordEnds_cons, hd] at hs
      exact absurd hs (by simp)
  · cases x with
    | nil => exact Or.inl ⟨by simpa using hx.symm, by simpa using hr⟩
    | cons d x =>
      have hd := hw d (by rw [hx]; simp)
      rw [hr]
      exact Or.inr (isBlank_of_isWord hd)

/-- One of some words at the start of a word is all of it, or the word goes on behind it. -/
theorem oneOf_word (hwords : ∀ w ∈ words, IsWord w) (hw : IsWord w) (hs : WordEnds s)
    {v : List Char} (h : oneOf words (w ++ s) = some (v, r)) :
    (v = w ∧ r = s) ∨ BlanksEnd r := by
  obtain ⟨hv, heq⟩ := oneOf_eq_some h
  exact word_prefix hw.2 (hwords v hv).2 hs heq

/-- A word is skipped only if it is one of the words and blanks follow it. -/
theorem skipWord_word (hwords : ∀ w ∈ words, IsWord w) (hw : IsWord w) (hs : WordEnds s)
    (h : skipWord words (w ++ s) = some r) : w ∈ words ∧ gap s = some r := by
  unfold skipWord at h
  obtain ⟨⟨v, t⟩, hone, hgap⟩ := Option.bind_eq_some_iff.mp h
  rcases oneOf_word hwords hw hs hone with ⟨rfl, rfl⟩ | hends
  · exact ⟨(oneOf_eq_some hone).1, hgap⟩
  · dsimp only at hgap
    rw [gap_eq_none hends] at hgap
    exact absurd hgap (by simp)

theorem reach_of_none {step : List Char → Option (List Char)} (h : step s = none) (n : Nat) :
    reach step n s = [s] := by
  cases n with
  | zero => rfl
  | succ n => rw [reach, h]

/-! ## Rows -/

/-- Some words, each with the blanks behind it. -/
abbrev Row := List (List Char × List Char)

def Row.chars (ks : Row) : List Char := ks.flatMap fun k => k.1 ++ k.2

/-- A row of known words. -/
def Row.Of (words : List (List Char)) (ks : Row) : Prop := ∀ k ∈ ks, k.1 ∈ words ∧ IsGap k.2

instance (ks : Row) : Decidable (ks.Of words) :=
  inferInstanceAs (Decidable (∀ k ∈ ks, k.1 ∈ words ∧ IsGap k.2))

namespace Row

variable {ks : Row} {k : List Char × List Char}

@[simp] theorem chars_nil : Row.chars [] = [] := rfl

@[simp] theorem chars_cons : Row.chars (k :: ks) = k.1 ++ (k.2 ++ ks.chars) :=
  List.append_assoc ..

@[simp] theorem chars_append (ks ks' : Row) : Row.chars (ks ++ ks') = ks.chars ++ ks'.chars :=
  List.flatMap_append ..

theorem Of.mono {words' : List (List Char)} (h : ks.Of words) (hsub : ∀ w ∈ words, w ∈ words') :
    ks.Of words' := fun k hk => ⟨hsub _ (h k hk).1, (h k hk).2⟩

theorem Of.behind (h : Row.Of words (k :: ks)) : ks.Of words :=
  fun k' hk' => h k' (List.mem_cons_of_mem _ hk')

/-- What holds of the characters of words and of blanks holds of those of a row. -/
theorem Of.forall_chars {P : Char → Prop} (h : ks.Of words) (hword : ∀ w ∈ words, ∀ c ∈ w, P c)
    (hgap : ∀ g, IsGap g → ∀ c ∈ g, P c) : ∀ c ∈ ks.chars, P c := by
  intro c hc
  obtain ⟨k, hk, hc⟩ := List.mem_flatMap.mp hc
  rcases List.mem_append.mp hc with hc | hc
  · exact hword _ (h k hk).1 c hc
  · exact hgap _ (h k hk).2 c hc

/-- Behind a row no word goes on, if none did before it. -/
theorem Of.ends (h : ks.Of words) (hb : before.any isWord = false) :
    (lastOf before ks.chars).any isWord = false := by
  induction ks generalizing before with
  | nil => exact hb
  | cons k ks ih =>
    obtain ⟨c, hc, heq⟩ := lastOf_mem (h k (by simp)).2.1 (lastOf before k.1)
    rw [chars_cons, lastOf_append, lastOf_append]
    refine ih h.behind ?_
    rw [heq]
    exact isWord_of_isBlank ((h k (by simp)).2.2 c hc)

theorem Of.ends_behind (h : ks.Of words) (hg : IsGap g) (u : List Char) :
    (lastOf before (u ++ (g ++ ks.chars))).any isWord = false := by
  obtain ⟨c, hc, heq⟩ := lastOf_mem hg.1 (lastOf before u)
  rw [lastOf_append, lastOf_append]
  refine h.ends ?_
  rw [heq]
  exact isWord_of_isBlank (hg.2 c hc)

theorem Of.blanksEnd (hwords : ∀ w ∈ words, IsWord w) (h : ks.Of words) (hs : BlanksEnd s) :
    BlanksEnd (ks.chars ++ s) := by
  cases ks with
  | nil => exact hs
  | cons k ks =>
    rw [chars_cons, List.append_assoc]
    exact (hwords _ (h k (by simp)).1).blanksEnd _

/-- The first word that stands there decides whether there is a boundary before a row. -/
theorem Of.isBoundary_iff (hwords : ∀ w ∈ words, IsWord w) (h : ks.Of words) (hw : IsWord w) :
    isBoundary before (ks.chars ++ (w ++ s)).head? = true ↔ before.any isWord = false := by
  cases ks with
  | nil => exact ⟨fun hb => hw.before_of_isBoundary hb, fun hb => isBoundary_word hb hw s⟩
  | cons k ks =>
    have hfirst := hwords _ (h k (by simp)).1
    rw [chars_cons, List.append_assoc]
    exact ⟨fun hb => hfirst.before_of_isBoundary hb, fun hb => isBoundary_word hb hfirst _⟩

theorem Of.length_le (hwords : ∀ w ∈ words, IsWord w) (h : ks.Of words) (s : List Char) :
    ks.length ≤ (ks.chars ++ s).length := by
  induction ks with
  | nil => exact Nat.zero_le _
  | cons k ks ih =>
    have hword : 0 < k.1.length := List.length_pos_iff.mpr (hwords _ (h k (by simp)).1).1
    have hrest := ih h.behind
    simp only [List.length_append] at hrest
    simp only [chars_cons, List.length_append, List.length_cons]
    omega

/-! ## The places behind rows -/

/-- The first word of a row is stepped over. -/
theorem Of.skipWord_first (hfree : PrefixFree words) (hwords : ∀ w ∈ words, IsWord w)
    (h : Row.Of words (k :: ks)) (hp : BlanksEnd p) :
    skipWord words (Row.chars (k :: ks) ++ p) = some (ks.chars ++ p) := by
  rw [chars_cons, List.append_assoc, List.append_assoc]
  exact skipWord_append hfree (h k (by simp)).1 (h k (by simp)).2 (h.behind.blanksEnd hwords hp)

/-- A step over one of some words reaches the end of a row of them. -/
theorem Of.mem_reach (hfree : PrefixFree words) (hwords : ∀ w ∈ words, IsWord w) (h : ks.Of words)
    (hp : BlanksEnd p) {m : Nat} (hm : ks.length ≤ m) :
    p ∈ reach (skipWord words) m (ks.chars ++ p) := by
  induction ks generalizing m with
  | nil =>
    cases m with
    | zero => exact List.mem_singleton_self _
    | succ m =>
      rw [chars_nil, List.nil_append, reach]
      split
      · exact List.mem_append_right _ (List.mem_singleton_self _)
      · exact List.mem_singleton_self _
  | cons k ks ih =>
    cases m with
    | zero => exact absurd hm (by simp)
    | succ m =>
      -- the first word is skipped, and the place is reached from behind it
      rw [reach, h.skipWord_first hfree hwords hp]
      exact List.mem_append_left _ (ih h.behind (Nat.le_of_succ_le_succ hm))

/-- Where no further word can be stepped over, the place behind the row is tried first. -/
theorem Of.findSome?_reach {α : Type} {f : List Char → Option α} {a : α}
    (hfree : PrefixFree words) (hwords : ∀ w ∈ words, IsWord w) (h : ks.Of words)
    (hp : BlanksEnd p) (hstop : skipWord words p = none) (hf : f p = some a) {m : Nat}
    (hm : ks.length ≤ m) : (reach (skipWord words) m (ks.chars ++ p)).findSome? f = some a := by
  induction ks generalizing m with
  | nil => rw [chars_nil, List.nil_append, reach_of_none hstop, List.findSome?_cons, hf]
  | cons k ks ih =>
    cases m with
    | zero => exact absurd hm (by simp)
    | succ m =>
      rw [reach, h.skipWord_first hfree hwords hp]
      dsimp only
      rw [List.findSome?_append, ih h.behind (Nat.le_of_succ_le_succ hm), Option.some_or]

end Row

theorem exists_row_of_mem_reach {m : Nat} (h : p ∈ reach (skipWord words) m s) :
    ∃ ks : Row, ks.Of words ∧ s = ks.chars ++ p := by
  have hnone : ∃ ks : Row, ks.Of words ∧ p = ks.chars ++ p := ⟨[], by simp [Row.Of], rfl⟩
  -- a place is the text itself, or one behind the first word that is passed over
  induction m generalizing s with
  | zero =>
    rw [reach, List.mem_singleton] at h
    rw [← h]
    exact hnone
  | succ m ih =>
    rw [reach] at h
    split at h
    · rename_i r hskip
      rcases List.mem_append.mp h with hr | hs
      · obtain ⟨w, hw, g, rfl, hne, hg⟩ := skipWord_eq_some hskip
        obtain ⟨ks, hks, rfl⟩ := ih hr
        refine ⟨(w, g) :: ks, List.forall_mem_cons.mpr ⟨⟨hw, hne, hg⟩, hks⟩, ?_⟩
        simp only [Row.chars_cons, List.append_assoc]
      · rw [← List.mem_singleton.mp hs]
        exact hnone
    · rw [← List.mem_singleton.mp h]
      exact hnone

end ClassAtlas.Code
