import Mathlib.Data.Option.Basic
import ClassAtlas.Proofs.Text.Places

/-!
# Words and blanks

Recognisers read words and blanks as far as they go. On a text that is put together from words and
other characters this means that a recogniser stops exactly where the word or the blanks were put:
a word is read to its end as soon as the text after it does not go on with a word character.
-/

namespace ClassAtlas.Text

/-! Whether something holds of the characters of a text is decided along the text, and not by trying
all characters there are. -/

instance (priority := high) decidableForallChars (s : List Char) (p : Char → Prop)
    [DecidablePred p] : Decidable (∀ c ∈ s, p c) :=
  List.decidableBAll p s

instance (priority := high) decidableExistsChars (s : List Char) (p : Char → Prop)
    [DecidablePred p] : Decidable (∃ c ∈ s, p c) :=
  List.decidableBEx p s

/-- A word: word characters only, and at least one. -/
def IsWord (w : List Char) : Prop := w ≠ [] ∧ ∀ c ∈ w, isWord c = true

instance (w : List Char) : Decidable (IsWord w) := inferInstanceAs (Decidable (_ ∧ _))

/-- The text does not go on with a word character. -/
def WordEnds (s : List Char) : Prop := s.head?.any isWord = false

instance (s : List Char) : Decidable (WordEnds s) := inferInstanceAs (Decidable (_ = _))

/-- The text does not go on with a blank. -/
def BlanksEnd (s : List Char) : Prop := s.head?.any isBlank = false

instance (s : List Char) : Decidable (BlanksEnd s) := inferInstanceAs (Decidable (_ = _))

@[simp] theorem wordEnds_nil : WordEnds [] := rfl

@[simp] theorem wordEnds_cons {c : Char} {s : List Char} :
    WordEnds (c :: s) ↔ isWord c = false := Iff.rfl

@[simp] theorem blanksEnd_nil : BlanksEnd [] := rfl

@[simp] theorem blanksEnd_cons {c : Char} {s : List Char} :
    BlanksEnd (c :: s) ↔ isBlank c = false := Iff.rfl

theorem wordEnds_append {u : List Char} (hu : u ≠ []) (s : List Char) :
    WordEnds (u ++ s) ↔ WordEnds u := by
  cases u with
  | nil => exact absurd rfl hu
  | cons c u => exact Iff.rfl

theorem blanksEnd_append {u : List Char} (hu : u ≠ []) (s : List Char) :
    BlanksEnd (u ++ s) ↔ BlanksEnd u := by
  cases u with
  | nil => exact absurd rfl hu
  | cons c u => exact Iff.rfl

theorem isWord_of_isIdentifier {w : List Char} (h : isIdentifier w = true) : IsWord w := by
  cases w with
  | nil => simp [isIdentifier] at h
  | cons c w =>
    simp only [isIdentifier, Bool.and_eq_true, List.all_eq_true] at h
    refine ⟨by simp, ?_⟩
    intro d hd
    rcases List.mem_cons.mp hd with rfl | hd
    · have hstart := h.1
      unfold isWord
      split
      · rw [hstart]; rfl
      · rename_i hbig
        -- a name begins with a character of the basic alphabet
        unfold isNameStart Char.isAlpha Char.isUpper Char.isLower at hstart
        simp only [Bool.or_eq_true, Bool.and_eq_true, decide_eq_true_eq, beq_iff_eq] at hstart
        exfalso
        apply hbig
        rcases hstart with (⟨_, h2⟩ | ⟨_, h2⟩) | rfl
        · exact Nat.lt_of_le_of_lt (UInt32.le_iff_toNat_le.mp h2) (by decide)
        · exact Nat.lt_of_le_of_lt (UInt32.le_iff_toNat_le.mp h2) (by decide)
        · decide
    · exact h.2 d hd

/-- A blank is no word character: the two tables have nothing in common. -/
theorem isWord_of_isBlank {c : Char} (h : isBlank c = true) : isWord c = false := by
  have key : ∀ r ∈ blankRanges, ∀ n ∈ List.range' r.1 (r.2 + 1 - r.1),
      isWord (Char.ofNat n) = false := by decide +kernel
  unfold isBlank Ranges.holds at h
  obtain ⟨r, hr, hc⟩ := List.any_eq_true.mp h
  simp only [Bool.and_eq_true, decide_eq_true_eq] at hc
  have hcode := key r hr c.toNat (by rw [List.mem_range'_1]; omega)
  rwa [Char.ofNat_toNat] at hcode

theorem isBlank_of_isWord {c : Char} (h : isWord c = true) : isBlank c = false := by
  cases hb : isBlank c with
  | false => rfl
  | true => rw [isWord_of_isBlank hb] at h; exact absurd h (by simp)

variable {w s r : List Char}

theorem wordEnds_space (s : List Char) : WordEnds (' ' :: s) := (by decide : isWord ' ' = false)

/-- Where blanks go on, no word does. -/
theorem wordEnds_of_blanks (h : ¬ BlanksEnd s) : WordEnds s := by
  cases s with
  | nil => rfl
  | cons c s =>
    have hc : isBlank c = true := by simpa using h
    exact isWord_of_isBlank hc

theorem IsWord.blanksEnd (hw : IsWord w) (s : List Char) : BlanksEnd (w ++ s) := by
  obtain ⟨hne, hall⟩ := hw
  cases w with
  | nil => exact absurd rfl hne
  | cons c w => exact isBlank_of_isWord (hall c (by simp))

theorem IsWord.head (hw : IsWord w) (s : List Char) : (w ++ s).head?.any isWord = true := by
  obtain ⟨hne, hall⟩ := hw
  cases w with
  | nil => exact absurd rfl hne
  | cons c w => exact hall c (by simp)

/-! ## Words inside a text -/

/-- A word stands in a text as soon as it stands in it with other characters before it. -/
theorem IsWord.infix_of_marks_append (hw : IsWord w) {u : List Char}
    (hu : ∀ c ∈ u, isWord c = false) (h : w <:+: u ++ s) : w <:+: s := by
  induction u with
  | nil => exact h
  | cons c u ih =>
    have hc : isWord c = false := hu c (by simp)
    rw [List.cons_append] at h
    rcases List.infix_cons_iff.mp h with ⟨t, ht⟩ | hin
    · have hhead := hw.head t
      rw [ht, show (c :: (u ++ s)).head?.any isWord = isWord c from rfl, hc] at hhead
      exact absurd hhead (by simp)
    · exact ih (fun d hd => hu d (List.mem_cons_of_mem _ hd)) hin

/-- A word stands in a text as soon as it stands in it with other characters behind it. -/
theorem IsWord.infix_of_append_marks (hw : IsWord w) {u : List Char}
    (hu : ∀ c ∈ u, isWord c = false) (h : w <:+: s ++ u) : w <:+: s := by
  have hrev : IsWord w.reverse :=
    ⟨by simpa using hw.1, fun c hc => hw.2 c (List.mem_reverse.mp hc)⟩
  have hback : w.reverse <:+: u.reverse ++ s.reverse := by
    rw [← List.reverse_append]
    exact List.reverse_infix.mpr h
  have hu' : ∀ c ∈ u.reverse, isWord c = false := fun c hc => hu c (List.mem_reverse.mp hc)
  exact List.reverse_infix.mp (hrev.infix_of_marks_append hu' hback)

/-! ## Runs -/

theorem takeWhile_append_of_ends {p : Char → Bool} (hw : ∀ c ∈ w, p c = true)
    (hs : s.head?.any p = false) : (w ++ s).takeWhile p = w := by
  rw [List.takeWhile_append_of_pos hw]
  cases s with
  | nil => simp
  | cons c s =>
    have hc : p c = false := hs
    rw [List.takeWhile_cons_of_neg (by simp [hc]), List.append_nil]

theorem dropWhile_append_of_ends {p : Char → Bool} (hw : ∀ c ∈ w, p c = true)
    (hs : s.head?.any p = false) : (w ++ s).dropWhile p = s := by
  rw [List.dropWhile_append_of_pos hw]
  cases s with
  | nil => rfl
  | cons c s =>
    have hc : p c = false := hs
    rw [List.dropWhile_cons_of_neg (by simp [hc])]

theorem run_append {p : Char → Bool} (hne : w ≠ []) (hw : ∀ c ∈ w, p c = true)
    (hs : s.head?.any p = false) : run p (w ++ s) = some (w, s) := by
  unfold run
  rw [takeWhile_append_of_ends hw hs, dropWhile_append_of_ends hw hs]
  cases w with
  | nil => exact absurd rfl hne
  | cons c w => rfl

theorem run_eq_none {p : Char → Bool} (hs : s.head?.any p = false) : run p s = none := by
  cases s with
  | nil => rfl
  | cons c s =>
    have hc : p c = false := hs
    unfold run
    rw [List.takeWhile_cons_of_neg (by simp [hc])]

/-- What a run reads is not empty, is of the kind, and is all that there is of the kind. -/
theorem run_eq_some {p : Char → Bool} (h : run p s = some (w, r)) :
    s = w ++ r ∧ w ≠ [] ∧ (∀ c ∈ w, p c = true) ∧ r.head?.any p = false := by
  unfold run at h
  split at h
  · exact absurd h (by simp)
  · rename_i hne
    obtain ⟨rfl, rfl⟩ := Prod.mk.inj (Option.some.inj h)
    refine ⟨(List.takeWhile_append_dropWhile).symm, hne, ?_, ?_⟩
    · intro c hc
      exact List.all_eq_true.mp (List.all_takeWhile (p := p) (l := s)) c hc
    · -- what is dropped from the rest is nothing, since the run went as far as it could
      cases hd : s.dropWhile p with
      | nil => rfl
      | cons d t =>
        have := List.head?_dropWhile_not p s
        rw [hd] at this
        simpa using this

theorem word_append (hw : IsWord w) (hs : WordEnds s) : word (w ++ s) = some (w, s) :=
  run_append hw.1 hw.2 hs

theorem word_eq_none (hs : WordEnds s) : word s = none := run_eq_none hs

theorem word_eq_some_iff : word s = some (w, r) ↔ s = w ++ r ∧ IsWord w ∧ WordEnds r := by
  constructor
  · intro h
    obtain ⟨hs, hne, hall, hr⟩ := run_eq_some h
    exact ⟨hs, ⟨hne, hall⟩, hr⟩
  · rintro ⟨rfl, hw, hr⟩
    exact word_append hw hr

/-- A text splits in one way only into characters of a kind and a rest that begins with another. -/
theorem split_unique {p : Char → Bool} {w' s' : List Char} (hw : ∀ c ∈ w, p c = true)
    (hw' : ∀ c ∈ w', p c = true) (hs : s.head?.any p = false) (hs' : s'.head?.any p = false)
    (h : w ++ s = w' ++ s') : w = w' ∧ s = s' := by
  have hleft : w = w' := by
    rw [← takeWhile_append_of_ends hw hs, h, takeWhile_append_of_ends hw' hs']
  subst hleft
  exact ⟨rfl, List.append_cancel_left h⟩

/-- A text splits into a word and the rest in one way only. -/
theorem word_split_unique {w' s' : List Char} (hw : ∀ c ∈ w, isWord c = true)
    (hw' : ∀ c ∈ w', isWord c = true) (hs : WordEnds s) (hs' : WordEnds s')
    (h : w ++ s = w' ++ s') : w = w' ∧ s = s' :=
  split_unique hw hw' hs hs' h

/-! ## Blanks -/

theorem trimStart_of_ends (h : BlanksEnd s) : trimStart s = s :=
  dropWhile_append_of_ends (w := []) (by simp) h

theorem trimStart_append {g : List Char} (hg : ∀ c ∈ g, isBlank c = true) (s : List Char) :
    trimStart (g ++ s) = trimStart s := List.dropWhile_append_of_pos hg

/-- Blanks that end within a text are the same with any text behind it. -/
theorem trimStart_append_of_ne_nil {u : List Char} (hu : trimStart u ≠ []) (s : List Char) :
    trimStart (u ++ s) = trimStart u ++ s := by
  unfold trimStart at hu ⊢
  rw [List.dropWhile_append, if_neg (by simpa using hu)]

theorem trimStart_cons {c : Char} (hc : isBlank c = true) (s : List Char) :
    trimStart (c :: s) = trimStart s := List.dropWhile_cons_of_pos hc

theorem blanksEnd_trimStart (s : List Char) : BlanksEnd (trimStart s) := by
  unfold trimStart BlanksEnd
  cases hd : s.dropWhile isBlank with
  | nil => rfl
  | cons d t =>
    have := List.head?_dropWhile_not isBlank s
    rw [hd] at this
    simpa using this

/-- A text is the blanks that it begins with, and what is left of it. -/
theorem trimStart_split (s : List Char) :
    ∃ g, s = g ++ trimStart s ∧ ∀ c ∈ g, isBlank c = true :=
  ⟨s.takeWhile isBlank, List.takeWhile_append_dropWhile.symm,
    fun c hc => List.all_eq_true.mp List.all_takeWhile c hc⟩

theorem gap_split (h : ¬ BlanksEnd s) :
    ∃ g, g ≠ [] ∧ s = g ++ trimStart s ∧ ∀ c ∈ g, isBlank c = true := by
  obtain ⟨g, hs, hg⟩ := trimStart_split s
  refine ⟨g, ?_, hs, hg⟩
  rintro rfl
  rw [List.nil_append] at hs
  exact h (hs ▸ blanksEnd_trimStart s)

theorem gap_eq_some_iff : gap s = some r ↔ ¬ BlanksEnd s ∧ trimStart s = r := by
  cases s with
  | nil => simp [gap, run]
  | cons c s =>
    cases hc : isBlank c with
    | true => simp [gap, run, hc, trimStart]
    | false => simp [gap, run, hc]

theorem gap_eq_none (h : BlanksEnd s) : gap s = none := by
  cases hg : gap s with
  | none => rfl
  | some r => exact absurd h (gap_eq_some_iff.mp hg).1

theorem gap_cons {c : Char} (hc : isBlank c = true) (s : List Char) :
    gap (c :: s) = some (trimStart s) :=
  gap_eq_some_iff.mpr ⟨by simp [hc], trimStart_cons hc s⟩

/-- Blanks, and at least one. -/
def IsGap (s : List Char) : Prop := s ≠ [] ∧ ∀ c ∈ s, isBlank c = true

instance (s : List Char) : Decidable (IsGap s) := inferInstanceAs (Decidable (_ ∧ _))

/-- No word goes on in blanks, nor behind them where none begins there. -/
theorem wordEnds_blanks_append {g : List Char} (hg : ∀ c ∈ g, isBlank c = true) (hs : WordEnds s) :
    WordEnds (g ++ s) := by
  cases g with
  | nil => exact hs
  | cons c g => exact isWord_of_isBlank (hg c (by simp))

theorem isBlank_nil : ∀ c ∈ ([] : List Char), isBlank c = true := List.forall_mem_nil _

theorem isBlank_space : ∀ c ∈ [' '], isBlank c = true := by decide

theorem isGap_space : IsGap [' '] := ⟨by simp, isBlank_space⟩

theorem IsGap.not_blanksEnd (h : IsGap w) (s : List Char) : ¬ BlanksEnd (w ++ s) := by
  rw [blanksEnd_append h.1]
  cases w with
  | nil => exact absurd rfl h.1
  | cons c w => simp [h.2 c (by simp)]

theorem gap_append (h : IsGap w) (hs : BlanksEnd s) : gap (w ++ s) = some s := by
  unfold gap
  rw [run_append h.1 h.2 hs]
  rfl

/-- One space and a text that begins with no blank: the usual distance of two words. -/
theorem gap_space (h : BlanksEnd s) : gap (' ' :: s) = some s := by
  rw [gap_cons (by decide), trimStart_of_ends h]

/-! ## Literals -/

theorem literal_eq_some_iff : literal w s = some r ↔ s = w ++ r := by
  induction w generalizing s with
  | nil => simp [literal, eq_comm]
  | cons d w ih =>
    cases s with
    | nil => simp [literal]
    | cons c s =>
      by_cases hdc : d = c
      · subst hdc; simp [literal, ih]
      · simp [literal, hdc, Ne.symm hdc]

@[simp] theorem literal_append (w s : List Char) : literal w (w ++ s) = some s :=
  literal_eq_some_iff.mpr rfl

theorem oneOf_eq_some {words : List (List Char)} (h : oneOf words s = some (w, r)) :
    w ∈ words ∧ s = w ++ r := by
  unfold oneOf at h
  obtain ⟨v, hv, hvw⟩ := List.exists_of_findSome?_eq_some h
  obtain ⟨t, ht, hpair⟩ := Option.map_eq_some_iff.mp hvw
  obtain ⟨rfl, rfl⟩ := Prod.mk.inj hpair
  exact ⟨hv, literal_eq_some_iff.mp ht⟩

/-! ## Boundaries -/

theorem guard_eq_some {c : Prop} [Decidable c] {a : Unit} :
    (guard c : Option Unit) = some a ↔ c := by
  unfold guard
  split
  · simp [*]
  · simp [*]

/-- Between a character that belongs to no word and the first one of a word there is a boundary. -/
theorem isBoundary_word {before : Option Char} (hb : before.any isWord = false) (hw : IsWord w)
    (s : List Char) : isBoundary before (w ++ s).head? = true := by
  unfold isBoundary
  rw [hb, hw.head s]
  rfl

/-- At a boundary before a word no word goes on. -/
theorem IsWord.before_of_isBoundary {before : Option Char} (hw : IsWord w)
    (hb : isBoundary before (w ++ s).head? = true) : before.any isWord = false := by
  unfold isBoundary at hb
  rw [hw.head s] at hb
  simpa using hb

theorem isBoundary_after {before : Option Char} (hb : before.any isWord = true) :
    isBoundary before s.head? = true ↔ WordEnds s := by
  unfold isBoundary WordEnds
  rw [hb]
  cases s.head?.any isWord <;> simp

theorem lastOf_word (hw : IsWord w) (before : Option Char) :
    (lastOf before w).any isWord = true := by
  obtain ⟨c, hc, heq⟩ := lastOf_mem hw.1 before
  rw [heq]
  exact hw.2 c hc

end ClassAtlas.Text
