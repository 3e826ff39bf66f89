import ClassAtlas.Proofs.Text.Words
import ClassAtlas.Text.Lines

/-!
# Lines and trimming

A written text is the characters of its lines, each with a line break behind it. Splitting it at
separators that no line contains gives the lines back, and then an empty one. Trimming a line takes
its indentation away and leaves a text that ends with no blank as it is.
-/

namespace ClassAtlas.Text

/-- The characters of some lines. -/
def charsOf (ls : List String) : List Char := ls.flatMap fun l => l.toList ++ ['\n']

@[simp] theorem charsOf_nil : charsOf [] = [] := rfl

@[simp] theorem charsOf_cons (l : String) (ls : List String) :
    charsOf (l :: ls) = l.toList ++ '\n' :: charsOf ls := by
  simp [charsOf]

@[simp] theorem charsOf_append (ls ms : List String) :
    charsOf (ls ++ ms) = charsOf ls ++ charsOf ms := by
  simp [charsOf]

theorem toList_unlines (ls : List String) : (unlines ls).toList = charsOf ls := by
  induction ls with
  | nil => rfl
  | cons l ls ih =>
    rw [unlines, String.toList_append, String.toList_append, ih, charsOf_cons, List.append_assoc]
    rfl

theorem splitOnP_charsOf {p : Char → Bool} (hp : p '\n' = true) {ls : List String}
    (hls : ∀ l ∈ ls, ∀ c ∈ l.toList, p c = false) :
    (charsOf ls).splitOnP p = ls.map String.toList ++ [[]] := by
  induction ls with
  | nil => exact List.splitOnP_nil
  | cons l ls ih =>
    rw [charsOf_cons, List.splitOnP_append_cons_of_forall_mem (hls l (by simp)) _ hp,
      ih fun m hm => hls m (List.mem_cons_of_mem _ hm), List.map_cons, List.cons_append]

/-! ## Trimming -/

theorem trimEnd_append_word (u : List Char) {w : List Char} (hw : IsWord w) :
    trimEnd (u ++ w) = u ++ w := by
  unfold trimEnd
  have hrev : IsWord w.reverse := by
    refine ⟨by simpa using hw.1, fun c hc => hw.2 c (by simpa using hc)⟩
  have hstop := trimStart_of_ends (hrev.blanksEnd u.reverse)
  rw [List.reverse_append]
  rw [show (w.reverse ++ u.reverse).dropWhile isBlank = w.reverse ++ u.reverse from hstop,
    List.reverse_append, List.reverse_reverse, List.reverse_reverse]

theorem trimEnd_append_mark (u : List Char) {c : Char} (hc : isBlank c = false) :
    trimEnd (u ++ [c]) = u ++ [c] := by
  unfold trimEnd
  rw [List.reverse_append]
  rw [show ([c].reverse ++ u.reverse) = c :: u.reverse from rfl,
    List.dropWhile_cons_of_neg (by simp [hc])]
  simp

theorem trimEnd_append_blanks (u : List Char) {g : List Char} (hg : ∀ c ∈ g, isBlank c = true) :
    trimEnd (u ++ g) = trimEnd u := by
  unfold trimEnd
  rw [List.reverse_append, List.dropWhile_append_of_pos fun c hc => hg c (List.mem_reverse.mp hc)]

/-- Blanks that end within a text are the same with any text before it. -/
theorem trimEnd_append_of_ne_nil {s : List Char} (hs : trimEnd s ≠ [])
    (u : List Char) :
    trimEnd (u ++ s) = u ++ trimEnd s := by
  unfold trimEnd at hs ⊢
  rw [List.reverse_append, List.dropWhile_append, if_neg (by simpa using hs), List.reverse_append,
    List.reverse_reverse]

theorem trimEnd_prefix (s : List Char) : trimEnd s <+: s := by
  have h := List.reverse_prefix.mpr (List.dropWhile_suffix isBlank (l := s.reverse))
  rwa [List.reverse_reverse] at h

/-- Nothing of a word is trimmed away, whatever follows it. -/
theorem trimEnd_word_append {w : List Char} (hw : IsWord w) (s : List Char) :
    trimEnd (w ++ s) = w ++ trimEnd s := by
  have hword : trimEnd w = w := trimEnd_append_word [] hw
  unfold trimEnd at hword ⊢
  rw [List.reverse_append, List.dropWhile_append]
  split
  · rename_i hempty
    rw [hword, List.isEmpty_iff.mp hempty, List.reverse_nil, List.append_nil]
  · rw [List.reverse_append, List.reverse_reverse]

/-- A word between blanks. -/
theorem trim_word {g h w : List Char} (hg : ∀ c ∈ g, isBlank c = true)
    (hh : ∀ c ∈ h, isBlank c = true) (hw : IsWord w) : trim (g ++ (w ++ h)) = w := by
  unfold trim
  rw [trimStart_append hg, trimStart_of_ends (hw.blanksEnd h), trimEnd_append_blanks w hh]
  exact trimEnd_append_word [] hw

/-- A text is what is left of it after trimming, between blanks. -/
theorem trim_split (s : List Char) : ∃ g h, s = g ++ (trim s ++ h) ∧
    (∀ c ∈ g, isBlank c = true) ∧ ∀ c ∈ h, isBlank c = true := by
  obtain ⟨g, hs, hg⟩ := trimStart_split s
  obtain ⟨h, hrev, hh⟩ := trimStart_split (trimStart s).reverse
  refine ⟨g, h.reverse, ?_, hg, fun c hc => hh c (List.mem_reverse.mp hc)⟩
  have hend : trimStart s = trim s ++ h.reverse := by
    have hback := congrArg List.reverse hrev
    rwa [List.reverse_reverse, List.reverse_append] at hback
  rw [← hend]
  exact hs

/-- What a trimmed text begins with is what the text begins with after its blanks. -/
theorem head?_trimEnd {s : List Char} (hs : BlanksEnd s) : (trimEnd s).head? = s.head? := by
  cases s with
  | nil => rfl
  | cons c s =>
    have hc : isBlank c = false := hs
    unfold trimEnd
    -- blanks are dropped from the end, and the first character stops that
    have hkeep : ∀ r : List Char, (r ++ [c]).dropWhile isBlank = r.dropWhile isBlank ++ [c] := by
      intro r
      induction r with
      | nil => simp [hc]
      | cons d r ih =>
        cases hd : isBlank d with
        | true => simp [hd, ih]
        | false => simp [hd]
    rw [List.reverse_cons, hkeep]
    simp

theorem head?_trim (s : List Char) : (trim s).head? = (trimStart s).head? :=
  head?_trimEnd (blanksEnd_trimStart s)

end ClassAtlas.Text
