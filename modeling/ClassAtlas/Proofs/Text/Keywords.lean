import ClassAtlas.Declared
import ClassAtlas.Proofs.Text.Words

/-!
# Keywords in a text

The patterns of both readers begin with a keyword that stands as a whole word before blanks and
another word. Such a *head* is all that has to be looked for to know that a piece of text contains
no occurrence: it cannot begin at a character that belongs to no word, nor inside a word, and at the
start of a word it begins only if the word is one of the keywords and is followed by another word.
-/

namespace ClassAtlas.Text

variable {P : PlaceProp} {before : Option Char} {words : List (List Char)}
  {u w s r rest : List Char}

/-! ## Places where words begin -/

/-- The property holds only where a word begins. -/
def Lexical (P : PlaceProp) : Prop :=
  ∀ b s, P b s → isBoundary b s.head? = true ∧ s.head?.any isWord = true

/-- The property holds only at word characters. -/
def Wordy (P : PlaceProp) : Prop := ∀ b s, P b s → s.head?.any isWord = true

theorem Lexical.wordy (hP : Lexical P) : Wordy P := fun b s h => (hP b s h).2

theorem nowhere_mark (hP : Wordy P) {c : Char} (hc : isWord c = false) :
    Nowhere P before (c :: u) rest ↔ Nowhere P (some c) u rest := by
  refine ⟨fun h => h.2, fun h => ⟨?_, h⟩⟩
  intro hp
  have := hP _ _ hp
  rw [show (c :: (u ++ rest)).head?.any isWord = isWord c from rfl, hc] at this
  exact absurd this (by simp)

theorem nowhere_marks (hP : Wordy P) (hu : ∀ c ∈ u, isWord c = false) :
    Nowhere P before u rest := by
  induction u generalizing before with
  | nil => trivial
  | cons c u ih =>
    exact (nowhere_mark hP (hu c (by simp))).mpr (ih fun d hd => hu d (List.mem_cons_of_mem _ hd))

theorem nowhere_blanks (hP : Wordy P) (hu : ∀ c ∈ u, isBlank c = true) :
    Nowhere P before u rest :=
  nowhere_marks hP fun c hc => isWord_of_isBlank (hu c hc)

/-- Inside a word no other word begins. -/
theorem nowhere_inside (hP : Lexical P) {c : Char} (hc : isWord c = true)
    (hu : ∀ d ∈ u, isWord d = true) : Nowhere P (some c) u rest := by
  induction u generalizing c with
  | nil => trivial
  | cons d u ih =>
    have hd : isWord d = true := hu d (by simp)
    refine ⟨?_, ih hd fun e he => hu e (List.mem_cons_of_mem _ he)⟩
    intro hp
    have hb := (hP _ _ hp).1
    simp [isBoundary, hc, hd] at hb

/-- A lexical property holds nowhere in a word as soon as it does not hold at its start. -/
theorem nowhere_word (hP : Lexical P) (hw : IsWord w) (h : ¬ P before (w ++ rest)) :
    Nowhere P before w rest := by
  obtain ⟨hne, hall⟩ := hw
  cases w with
  | nil => exact absurd rfl hne
  | cons c w =>
    exact ⟨h, nowhere_inside hP (hall c (by simp)) fun d hd => hall d (List.mem_cons_of_mem _ hd)⟩

/-- A property that holds only where one of some words stands holds nowhere in a piece that contains
none of them, unless a word runs across the end of the piece. -/
theorem nowhere_of_absent (hP : ∀ b s, P b s → ∃ w ∈ words, ∃ r, s = w ++ r)
    (hwords : ∀ w ∈ words, IsWord w) (hu : ∀ w ∈ words, ¬ w <:+: u)
    (hend : (lastOf none u).any isWord = false ∨ WordEnds rest) : Nowhere P before u rest := by
  induction u generalizing before with
  | nil => trivial
  | cons c u ih =>
    refine ⟨?_, ih (fun w hw hin => hu w hw ?_) ?_⟩
    · intro hp
      obtain ⟨w, hw, r, heq⟩ := hP _ _ hp
      rw [← List.cons_append] at heq
      rcases List.append_eq_append_iff.mp heq with ⟨t, ht, hrest⟩ | ⟨t, ht, _⟩
      · -- the word would reach to the end of the piece or beyond
        cases t with
        | nil => exact hu w hw ⟨[], [], by simp [ht]⟩
        | cons d t =>
          rcases hend with hlast | hrest'
          · obtain ⟨e, he, heqe⟩ := lastOf_mem (u := c :: u) (by simp) none
            rw [heqe] at hlast
            have hword := (hwords w hw).2 e (by rw [ht]; exact List.mem_append_left _ he)
            rw [show (some e).any isWord = isWord e from rfl, hword] at hlast
            exact absurd hlast (by simp)
          · have hword := (hwords w hw).2 d (by rw [ht]; simp)
            rw [hrest, List.cons_append, wordEnds_cons, hword] at hrest'
            exact absurd hrest' (by simp)
      · exact hu w hw ⟨[], t, by rw [ht]; rfl⟩
    · obtain ⟨x, y, hxy⟩ := hin
      exact ⟨c :: x, y, by rw [← hxy]; simp⟩
    · cases u with
      | nil => exact Or.inl rfl
      | cons d u => exact hend

/-! ## Heads -/

/-- Blanks follow, and then a word. -/
def wordFollows (s : List Char) : Bool := s.head?.any isBlank && (trimStart s).head?.any isWord

/-- One of some words stands whole at a place, with blanks and another word after it. -/
def Heads (words : List (List Char)) : PlaceProp := fun before s =>
  isBoundary before s.head? = true ∧ ∃ w ∈ words, ∃ r, s = w ++ r ∧ wordFollows r = true

theorem Heads.mono {words' : List (List Char)} (h : Heads words before s)
    (hsub : ∀ w ∈ words, w ∈ words') : Heads words' before s := by
  obtain ⟨hb, w, hw, r, hs, hr⟩ := h
  exact ⟨hb, w, hsub w hw, r, hs, hr⟩

theorem wordEnds_of_wordFollows (h : wordFollows r = true) : WordEnds r := by
  cases r with
  | nil => rfl
  | cons c r =>
    have hc : isBlank c = true := (Bool.and_eq_true_iff.mp h).1
    exact isWord_of_isBlank hc

theorem lexical_heads (hwords : ∀ w ∈ words, IsWord w) : Lexical (Heads words) := by
  rintro b s ⟨hb, w, hw, r, rfl, _⟩
  exact ⟨hb, (hwords w hw).head r⟩

/-- At the start of a whole word a head is that word. -/
theorem Heads.of_word (hwords : ∀ w ∈ words, IsWord w) (hw : IsWord w) (hs : WordEnds s)
    (h : Heads words before (w ++ s)) : w ∈ words ∧ wordFollows s = true := by
  obtain ⟨_, v, hv, r, heq, hr⟩ := h
  obtain ⟨rfl, rfl⟩ :=
    word_split_unique hw.2 (hwords v hv).2 hs (wordEnds_of_wordFollows hr) heq
  exact ⟨hv, hr⟩

/-- A text in which none of some words heads anything. -/
abbrev Silent (words : List (List Char)) : Option Char → List Char → List Char → Prop :=
  Nowhere (Heads words)

theorem Silent.mono {words' : List (List Char)} (h : Silent words' before u rest)
    (hsub : ∀ w ∈ words, w ∈ words') : Silent words before u rest :=
  Nowhere.mono h fun _ _ hq => hq.mono hsub

section

variable (hwords : ∀ w ∈ words, IsWord w)

include hwords

theorem silent_mark {c : Char} (hc : isWord c = false) :
    Silent words before (c :: u) rest ↔ Silent words (some c) u rest :=
  nowhere_mark (lexical_heads hwords).wordy hc

theorem silent_marks (hu : ∀ c ∈ u, isWord c = false) : Silent words before u rest :=
  nowhere_marks (lexical_heads hwords).wordy hu

theorem silent_word (hw : IsWord w) (hnot : w ∉ words) (hs : WordEnds rest) :
    Silent words before w rest :=
  nowhere_word (lexical_heads hwords) hw fun h => hnot (h.of_word hwords hw hs).1

/-- Even a keyword heads nothing where no other word follows. -/
theorem silent_last (hw : IsWord w) (hs : WordEnds rest) (hf : wordFollows rest = false) :
    Silent words before w rest :=
  nowhere_word (lexical_heads hwords) hw fun h => by
    have := (h.of_word hwords hw hs).2
    rw [hf] at this
    exact absurd this (by simp)

theorem silent_of_absent (hu : ∀ w ∈ words, ¬ w <:+: u)
    (hend : (lastOf none u).any isWord = false ∨ WordEnds rest) : Silent words before u rest :=
  nowhere_of_absent (fun _ _ ⟨_, w, hw, r, hs, _⟩ => ⟨w, hw, r, hs⟩) hwords hu hend

end

/-! ## Declared names -/

/-- A declaration is a keyword at a boundary, blanks, and the whole word after them. -/
theorem declared_eq_some_iff {keyword name : List Char} :
    declared keyword before s = some (name, r) ↔
      isBoundary before s.head? = true ∧
        ∃ t, s = keyword ++ t ∧ ¬ BlanksEnd t ∧ trimStart t = name ++ r ∧
          IsWord name ∧ WordEnds r := by
  unfold declared
  simp only [guard_eq_some, Option.bind_eq_bind, Option.bind_eq_some_iff, literal_eq_some_iff,
    gap_eq_some_iff, word_eq_some_iff]
  constructor
  · rintro ⟨_, hb, t, ht, t', ⟨hgap, rfl⟩, htrim, hname, hr⟩
    exact ⟨hb, t, ht, hgap, htrim, hname, hr⟩
  · rintro ⟨hb, t, ht, hgap, htrim, hname, hr⟩
    exact ⟨(), hb, t, ht, _, ⟨hgap, rfl⟩, htrim, hname, hr⟩

theorem heads_of_declared {keyword : List Char} (h : Matches (declared keyword) before s) :
    Heads [keyword] before s := by
  obtain ⟨⟨name, r⟩, heq⟩ := Option.isSome_iff_exists.mp h
  obtain ⟨hb, t, ht, hgap, htrim, hname, _⟩ := declared_eq_some_iff.mp heq
  refine ⟨hb, keyword, by simp, t, ht, ?_⟩
  unfold wordFollows
  rw [htrim, hname.head r, Bool.and_true]
  simpa [BlanksEnd] using hgap

theorem declared_word {keyword name : List Char} (hb : before.any isWord = false)
    (hk : IsWord keyword) (hn : IsWord name) (hr : WordEnds r) :
    declared keyword before (keyword ++ ' ' :: (name ++ r)) = some (name, r) := by
  refine declared_eq_some_iff.mpr ⟨isBoundary_word hb hk _, _, rfl, ?_, ?_, hn, hr⟩
  · simp [show isBlank ' ' = true from by decide]
  · rw [trimStart_cons (by decide), trimStart_of_ends (hn.blanksEnd r)]

end ClassAtlas.Text
