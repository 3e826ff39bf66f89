import ClassAtlas.Proofs.Text.Places

/-!
# Occurrences

The values of a scan are those of occurrences of the pattern, each at a place of its own, from left
to right. Places that an earlier occurrence covers are passed over, so it depends on the pattern
whether these are all the places where it matches: they are where no occurrence begins within
another one.
-/

namespace ClassAtlas.Text

variable {α : Type} {before : Option Char} {p : Pattern α} {s r : List Char} {c : Char} {a : α}

/-- An occurrence of a pattern: the text before it, the text from its place on, its value, and the
text behind it. -/
@[ext]
structure Occurrence (p : Pattern α) (before : Option Char) (s : List Char) where
  front : List Char
  behind : List Char
  value : α
  rest : List Char
  split : s = front ++ behind
  inside : behind ≠ []
  reads : p (lastOf before front) behind = some (value, rest)

namespace Occurrence

/-- An occurrence at the first place of a text. -/
def first (h : p before (c :: s) = some (a, r)) : Occurrence p before (c :: s) :=
  ⟨[], c :: s, a, r, rfl, by simp, h⟩

/-- An occurrence behind the first character of a text. -/
def later (o : Occurrence p (some c) s) : Occurrence p before (c :: s) :=
  ⟨c :: o.front, o.behind, o.value, o.rest, congrArg (c :: ·) o.split, o.inside, o.reads⟩

/-- An occurrence is at the first place or behind it. -/
theorem cases (o : Occurrence p before (c :: s)) :
    (∃ a r, ∃ h : p before (c :: s) = some (a, r), o = first h) ∨
      ∃ o' : Occurrence p (some c) s, o = o'.later := by
  obtain ⟨front, behind, value, rest, split, inside, reads⟩ := o
  cases front with
  | nil =>
    obtain rfl : c :: s = behind := split
    exact .inl ⟨value, rest, reads, rfl⟩
  | cons d front =>
    obtain ⟨rfl, hs⟩ := List.cons.inj split
    exact .inr ⟨⟨front, behind, value, rest, hs, inside, reads⟩, rfl⟩

end Occurrence

/-- No occurrence begins within another one. -/
def Apart (p : Pattern α) : Prop :=
  ∀ before c s a r, p before (c :: s) = some (a, r) →
    ∃ u, s = u ++ r ∧ Nowhere (Matches p) (some c) u r

/-- Behind an occurrence at the first place, the next one begins where that one ends, or later. -/
theorem Apart.le_front (hapart : Apart p) (h : p before (c :: s) = some (a, r))
    (o : Occurrence p (some c) s) : s.length - r.length ≤ o.front.length := by
  obtain ⟨u, hs, hnowhere⟩ := hapart _ _ _ _ _ h
  have hlen : s.length - r.length = u.length := by rw [hs]; simp
  rw [hlen]
  rcases List.append_eq_append_iff.mp (hs.symm.trans o.split) with ⟨t, ht, _⟩ | ⟨t, hu, hbehind⟩
  · rw [ht, List.length_append]
    exact Nat.le_add_right ..
  · -- otherwise it would begin within what the first one covers
    cases t with
    | nil => simp [hu]
    | cons d t =>
      have hplace : ¬ Matches p (lastOf (some c) o.front) (d :: t ++ r) :=
        Nowhere.not_at (by rwa [← hu]) (by simp)
      rw [← hbehind] at hplace
      exact absurd (Option.isSome_iff_exists.mpr ⟨_, o.reads⟩) hplace

/-- Occurrences from left to right behind some characters, and all of them where none begins within
another one. -/
structure Ordered (n : Nat) (os : List (Occurrence p before s)) : Prop where
  sorted : os.Pairwise fun o o' => o.front.length < o'.front.length
  far : ∀ o ∈ os, n ≤ o.front.length
  all : Apart p → ∀ o : Occurrence p before s, n ≤ o.front.length → o ∈ os

variable {n : Nat} {os : List (Occurrence p (some c) s)}

/-- The same occurrences, with one more character before the text. -/
theorem Ordered.later (h : Ordered n os) :
    Ordered (n + 1) (os.map fun o => (o.later : Occurrence p before (c :: s))) where
  sorted := List.pairwise_map.mpr (h.sorted.imp fun hlt => Nat.succ_lt_succ hlt)
  far := by
    intro o ho
    obtain ⟨o', ho', rfl⟩ := List.mem_map.mp ho
    exact Nat.succ_le_succ (h.far o' ho')
  all := by
    intro hapart o ho
    rcases o.cases with ⟨a, r, hp, rfl⟩ | ⟨o', rfl⟩
    · exact absurd ho (Nat.not_succ_le_zero n)
    · exact List.mem_map.mpr ⟨o', h.all hapart o' (Nat.le_of_succ_le_succ ho), rfl⟩

theorem Ordered.of_none {os : List (Occurrence p before (c :: s))} (h : Ordered 1 os)
    (hp : p before (c :: s) = none) : Ordered 0 os where
  sorted := h.sorted
  far := fun _ _ => Nat.zero_le _
  all := by
    intro hapart o _
    rcases o.cases with ⟨a, r, hsome, rfl⟩ | ⟨o', rfl⟩
    · rw [hp] at hsome
      exact absurd hsome (by simp)
    · exact h.all hapart _ (Nat.succ_pos _)

theorem Ordered.cons {os : List (Occurrence p before (c :: s))}
    (hp : p before (c :: s) = some (a, r)) (h : Ordered (s.length - r.length + 1) os) :
    Ordered 0 (.first hp :: os) where
  sorted := List.pairwise_cons.mpr
    ⟨fun o ho => Nat.lt_of_lt_of_le (Nat.succ_pos _) (h.far o ho), h.sorted⟩
  far := fun _ _ => Nat.zero_le _
  all := by
    intro hapart o _
    rcases o.cases with ⟨b, t, hsome, rfl⟩ | ⟨o', rfl⟩
    · obtain ⟨rfl, rfl⟩ := Prod.mk.inj (Option.some.inj (hsome.symm.trans hp))
      exact List.mem_cons_self ..
    · exact List.mem_cons_of_mem _ (h.all hapart _ (Nat.succ_le_succ (hapart.le_front hp o')))

theorem exists_ordered (p : Pattern α) (before : Option Char) (n : Nat) (s : List Char) :
    ∃ os : List (Occurrence p before s), Ordered n os ∧
      (pieces p before n s).filterMap Piece.value? = os.map (·.value) := by
  induction s generalizing before n with
  | nil =>
    refine ⟨[], ⟨.nil, by simp, fun _ o => ?_⟩, by cases n <;> rfl⟩
    exact absurd (List.append_eq_nil_iff.mp o.split.symm).2 o.inside
  | cons c s ih =>
    -- what is found behind the first character, counted from it
    have hlater (m : Nat) : ∃ os : List (Occurrence p before (c :: s)), Ordered (m + 1) os ∧
        (pieces p (some c) m s).filterMap Piece.value? = os.map (·.value) := by
      obtain ⟨os, hos, hvalues⟩ := ih (some c) m
      refine ⟨_, hos.later, ?_⟩
      rw [hvalues, List.map_map]
      rfl
    -- the first `n` characters belong to what was found before
    cases n with
    | succ n => exact hlater n
    | zero =>
      rw [pieces]
      cases hp : p before (c :: s) with
      | none =>
        obtain ⟨os, hos, hvalues⟩ := hlater 0
        exact ⟨os, hos.of_none hp, hvalues⟩
      | some found =>
        obtain ⟨os, hos, hvalues⟩ := hlater (s.length - found.2.length)
        exact ⟨_, hos.cons hp, congrArg (found.1 :: ·) hvalues⟩

/-- The values of a scan are those of occurrences, from left to right, and of all of them where none
begins within another one. -/
theorem exists_occurrences (p : Pattern α) (before : Option Char) (s : List Char) :
    ∃ os : List (Occurrence p before s), occurrencesFrom p before s = os.map (·.value) ∧
      os.Pairwise (fun o o' => o.front.length < o'.front.length) ∧ (Apart p → ∀ o, o ∈ os) := by
  obtain ⟨os, hos, hvalues⟩ := exists_ordered p before 0 s
  exact ⟨os, hvalues, hos.sorted, fun hapart o => hos.all hapart o (Nat.zero_le _)⟩

end ClassAtlas.Text
