import Mathlib.Data.List.Infix
import Mathlib.Order.Bounds.Basic
import ClassAtlas.Code.Block

/-!
# Where a block is closed

The end of a block is found by counting the blocks that are open. The invariant of the count is that
up to no place more blocks were closed than were open, so the brace at which it stops is the first
one before which as many braces open as close, and it stops at no brace exactly if there is none.

The same invariant tells which texts are balanced. It is kept along a text: behind a piece the count
is what was open before the piece, and what the piece opens, without what it closes.
-/

namespace ClassAtlas.Code

variable {depth : Nat} {u v : List Char}

/-! ## Texts that close no more than is open -/

/-- Up to no place the text closes more blocks than are open there, if some are open before it. -/
def Within (depth : Nat) (u : List Char) : Prop :=
  ∀ v, v <+: u → v.count '}' ≤ depth + v.count '{'

/-- The text closes the blocks that are open before it, and all blocks that it opens. -/
structure Shuts (depth : Nat) (u : List Char) : Prop where
  /-- It never closes a block that is not open. -/
  within : Within depth u
  /-- At its end no block is open. -/
  total : u.count '}' = depth + u.count '{'

/-- The braces of the text are balanced: up to no place more of them close than open, and in all as
many close as open. -/
def BraceBalanced (u : List Char) : Prop := Shuts 0 u

instance (depth : Nat) (u : List Char) : Decidable (Within depth u) :=
  decidable_of_iff (∀ v ∈ u.inits, v.count '}' ≤ depth + v.count '{')
    (by simp only [List.mem_inits]; rfl)

instance (u : List Char) : Decidable (BraceBalanced u) :=
  decidable_of_iff (Within 0 u ∧ u.count '}' = 0 + u.count '{')
    ⟨fun h => ⟨h.1, h.2⟩, fun h => ⟨h.within, h.total⟩⟩

theorem within_nil (depth : Nat) : Within depth [] := by
  intro v hv
  rw [List.prefix_nil.mp hv]
  exact Nat.zero_le _

/-- The count behind a piece goes on from what the piece opens and closes. -/
theorem within_append :
    Within depth (u ++ v) ↔
      Within depth u ∧ Within (depth + u.count '{' - u.count '}') v := by
  constructor
  · intro h
    have hu := h u (List.prefix_append ..)
    refine ⟨fun w hw => h w (hw.trans (List.prefix_append ..)), fun w hw => ?_⟩
    have hw := h (u ++ w) ((List.prefix_append_right_inj u).mpr hw)
    rw [List.count_append, List.count_append] at hw
    omega
  · rintro ⟨hu, hv⟩ w hw
    -- a prefix ends in the first part, or goes through it into the second
    rcases List.prefix_or_prefix_of_prefix hw (List.prefix_append u v) with hin | ⟨w, rfl⟩
    · exact hu w hin
    · have hall := hu u (List.prefix_refl u)
      have hw := hv w ((List.prefix_append_right_inj u).mp hw)
      rw [List.count_append, List.count_append]
      omega

theorem shuts_append :
    Shuts depth (u ++ v) ↔ Within depth u ∧ Shuts (depth + u.count '{' - u.count '}') v := by
  constructor
  · rintro ⟨hwithin, htotal⟩
    obtain ⟨hu, hv⟩ := within_append.mp hwithin
    have hall := hu u (List.prefix_refl u)
    rw [List.count_append, List.count_append] at htotal
    exact ⟨hu, hv, by omega⟩
  · rintro ⟨hu, hv, htotal⟩
    have hall := hu u (List.prefix_refl u)
    refine ⟨within_append.mpr ⟨hu, hv⟩, ?_⟩
    rw [List.count_append, List.count_append]
    omega

theorem within_singleton {c : Char} (h : c = '}' → depth ≠ 0) : Within depth [c] := by
  intro v hv
  rcases List.prefix_cons_iff.mp hv with rfl | ⟨t, rfl, ht⟩
  · exact Nat.zero_le _
  · rw [List.prefix_nil.mp ht, List.count_singleton, List.count_singleton]
    by_cases hc : c = '}'
    · have hdepth := h hc
      subst hc
      simp only [beq_self_eq_true, if_true]
      omega
    · simp [hc]

/-- How a character changes the count. -/
theorem depth_step (depth : Nat) (c : Char) :
    (if c = '{' then depth + 1 else if c = '}' then depth - 1 else depth) =
      depth + [c].count '{' - [c].count '}' := by
  by_cases hopen : c = '{'
  · subst hopen
    simp
  · by_cases hclose : c = '}'
    · subst hclose
      simp
    · simp [hopen, hclose]

/-- No brace closes a text that closes no more than it opens before as many close as open. -/
theorem Within.not_even (h : Within 0 (u ++ '}' :: v)) (heven : u.count '{' = u.count '}') :
    False := by
  have hprefix := h (u ++ ['}']) ⟨v, by simp⟩
  rw [List.count_append, List.count_append] at hprefix
  simp at hprefix
  omega

/-! ## The brace that closes a block -/

/-- The text behind an opening brace is split before a brace that closes it, or at its end. -/
theorem splitClose_spec (depth : Nat) (s : List Char) :
    ∃ u r, splitClose depth s = (u, r) ∧ s = u ++ r ∧ Within depth u ∧
      (r = [] ∨ ∃ t, r = '}' :: t ∧ u.count '}' = depth + u.count '{') := by
  induction s generalizing depth with
  | nil => exact ⟨[], [], rfl, rfl, within_nil depth, .inl rfl⟩
  | cons c s ih =>
    by_cases hend : c = '}' ∧ depth = 0
    · obtain ⟨rfl, rfl⟩ := hend
      exact ⟨[], '}' :: s, rfl, rfl, within_nil 0, .inr ⟨s, rfl, rfl⟩⟩
    · -- the count behind the character is that behind the piece with the one character
      rw [splitClose, if_neg hend, depth_step]
      obtain ⟨u, r, hsplit, rfl, hwithin, hr⟩ := ih (depth + [c].count '{' - [c].count '}')
      have hfirst : Within depth [c] := within_singleton fun hc hzero => hend ⟨hc, hzero⟩
      have hle := hfirst [c] (List.prefix_refl _)
      refine ⟨c :: u, r, ?_, rfl, within_append.mpr ⟨hfirst, hwithin⟩, ?_⟩
      · dsimp only
        rw [hsplit]
      · refine hr.imp_right ?_
        rintro ⟨t, rfl, htotal⟩
        refine ⟨t, rfl, ?_⟩
        rw [← List.singleton_append, List.count_append, List.count_append]
        omega

/-- Behind a start a brace closes at a place, and between the two as many braces open as close. -/
structure ClosesAt (text : List Char) (start i : Nat) : Prop where
  behind : start ≤ i
  closes : text[i]? = some '}'
  even : (text.extract start i).count '{' = (text.extract start i).count '}'

/-- The place at which a block ends whose body begins at a start: the first one at which a brace
closes it, or the end of the text if none does. -/
def EndsAt (text : List Char) (start i : Nat) : Prop :=
  IsLeast {j | ClosesAt text start j} i ∨ (∀ j, ¬ ClosesAt text start j) ∧ i = text.length

variable {text : List Char} {start i j : Nat}

theorem closesAt_iff :
    ClosesAt text start i ↔ ∃ u r, text.drop start = u ++ '}' :: r ∧
      u.count '{' = u.count '}' ∧ i = start + u.length := by
  constructor
  · rintro ⟨hbehind, hcloses, heven⟩
    obtain ⟨hlt, hbrace⟩ := List.getElem?_eq_some_iff.mp hcloses
    have hrest : (text.drop start).drop (i - start) = '}' :: text.drop (i + 1) := by
      rw [List.drop_drop, Nat.add_sub_cancel' hbehind, List.drop_eq_getElem_cons hlt, hbrace]
    -- an index is a cut of the text: what stands before it and what comes from it on
    have hlength : (text.extract start i).length = i - start := by
      rw [List.extract_eq_take_drop, List.length_take, List.length_drop]
      omega
    refine ⟨text.extract start i, text.drop (i + 1), ?_, heven, by omega⟩
    rw [List.extract_eq_take_drop, ← hrest, List.take_append_drop]
  · rintro ⟨u, r, hdrop, heven, rfl⟩
    refine ⟨Nat.le_add_right .., ?_, ?_⟩
    · rw [← List.getElem?_drop, hdrop, List.getElem?_append_right (Nat.le_refl _), Nat.sub_self]
      rfl
    · rw [List.extract_eq_take_drop, Nat.add_sub_cancel_left, hdrop, List.take_left]
      exact heven

theorem EndsAt.unique (hi : EndsAt text start i) (hj : EndsAt text start j) : i = j := by
  rcases hi with hi | ⟨hnone, rfl⟩
  · rcases hj with hj | ⟨hnone, _⟩
    · exact hi.unique hj
    · exact absurd hi.1 (hnone i)
  · rcases hj with hj | ⟨_, rfl⟩
    · exact absurd hj.1 (hnone j)
    · rfl

/-- The text behind a start is split where a block ends whose body begins there. -/
theorem exists_endsAt (text : List Char) (start : Nat) :
    ∃ i, EndsAt text start i ∧
      splitClose 0 (text.drop start) = (text.extract start i, text.drop i) := by
  obtain ⟨u, r, hsplit, hdrop, hwithin, hr⟩ := splitClose_spec 0 (text.drop start)
  rcases hr with rfl | ⟨t, rfl, htotal⟩
  · rw [List.append_nil] at hdrop
    refine ⟨text.length, .inr ⟨fun j hj => ?_, rfl⟩, ?_⟩
    · obtain ⟨v, r, hv, heven, _⟩ := closesAt_iff.mp hj
      rw [hdrop] at hv
      rw [hv] at hwithin
      exact hwithin.not_even heven
    · rw [hsplit, List.drop_length, List.extract_eq_take_drop, List.take_of_length_le
        (Nat.le_of_eq List.length_drop), hdrop]
  · have heven : u.count '{' = u.count '}' := by omega
    refine ⟨start + u.length, .inl ⟨closesAt_iff.mpr ⟨u, t, hdrop, heven, rfl⟩, ?_⟩, ?_⟩
    · intro j hj
      obtain ⟨v, r, hv, hfirst, rfl⟩ := closesAt_iff.mp hj
      rw [hdrop] at hv
      -- otherwise the body would close the block before its end
      rcases List.append_eq_append_iff.mp hv with ⟨w, rfl, _⟩ | ⟨w, rfl, hw⟩
      · rw [List.length_append]
        omega
      · cases w with
        | nil =>
          rw [List.append_nil]
        | cons c w =>
          obtain ⟨rfl, _⟩ := List.cons.inj hw
          exact absurd hfirst hwithin.not_even
    · rw [hsplit, List.extract_eq_take_drop, Nat.add_sub_cancel_left, ← List.drop_drop, hdrop,
        List.take_left, List.drop_left]

end ClassAtlas.Code
