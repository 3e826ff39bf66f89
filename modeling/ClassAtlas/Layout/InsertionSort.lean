/-!
# Sorting numbers that may not compare

Places beyond the largest number are infinite, and the difference of two infinite places is no
number: it is neither less than another one nor greater. A list with such places has no sorted
order, so the sort here fixes the comparisons that are made. The longest run at the start of the
list is kept, turned around if it descends. Every further element is put in at a place found by
halving, behind those that it is not less than.

Whatever the comparison says, nothing is lost and nothing added: the result is a permutation of the
list.
-/

namespace ClassAtlas

variable {α : Type}

/-- Splits a list, given its first element and the others, behind the longest start in which every
element is in relation to the next one. -/
def splitRun (related : α → α → Bool) : α → List α → List α × List α
  | a, [] => ([a], [])
  | a, b :: rest =>
    if related a b then
      let (run, rest) := splitRun related b rest
      (a :: run, rest)
    else ([a], b :: rest)

/-- The run at the start of a list in ascending order, and the rest of the list. A run that is
turned around descends strictly, so equal elements keep their order. -/
def firstRun (less : α → α → Bool) : List α → List α × List α
  | a :: b :: rest =>
    if less b a then
      let (run, rest) := splitRun (fun x y => less y x) a (b :: rest)
      (run.reverse, rest)
    else splitRun (fun x y => !less y x) a (b :: rest)
  | xs => (xs, [])

/-- Puts an element into a list at a place found by halving: before the middle element if it is less
than that, and otherwise behind it. -/
def insertByHalving (less : α → α → Bool) (x : α) (xs : List α) : List α :=
  match h : xs.drop (xs.length / 2) with
  | [] => [x]
  | y :: right =>
    have := congrArg List.length h
    if less x y then insertByHalving less x (xs.take (xs.length / 2)) ++ y :: right
    else xs.take (xs.length / 2) ++ y :: insertByHalving less x right
termination_by xs.length
decreasing_by
  all_goals
    simp only [List.length_take, List.length_drop, List.length_cons] at *
    omega

/-- A list sorted by its first run and the insertion of the rest. -/
def insertionSort (less : α → α → Bool) (xs : List α) : List α :=
  let (run, rest) := firstRun less xs
  rest.foldl (fun sorted x => insertByHalving less x sorted) run

/-! ## Nothing is lost -/

theorem splitRun_append (related : α → α → Bool) (a : α) (xs : List α) :
    (splitRun related a xs).1 ++ (splitRun related a xs).2 = a :: xs := by
  induction xs generalizing a with
  | nil => rfl
  | cons b rest ih =>
    rw [splitRun]
    split
    · exact congrArg (a :: ·) (ih b)
    · rfl

theorem firstRun_perm (less : α → α → Bool) (xs : List α) :
    ((firstRun less xs).1 ++ (firstRun less xs).2).Perm xs := by
  match xs with
  | [] => exact .nil
  | [a] => exact .refl _
  | a :: b :: rest =>
    rw [firstRun]
    split
    · have h := splitRun_append (fun x y => less y x) a (b :: rest)
      exact ((List.reverse_perm _).append_right _).trans (h ▸ .refl _)
    · rw [splitRun_append]

theorem insertByHalving_perm (less : α → α → Bool) (x : α) (xs : List α) :
    (insertByHalving less x xs).Perm (x :: xs) := by
  fun_induction insertByHalving less x xs with
  | case1 xs h =>
    have := congrArg List.length h
    have : xs.length = 0 := by simp at this; omega
    rw [List.eq_nil_of_length_eq_zero this]
  | case2 xs y right h _ _ ih =>
    have split := h ▸ List.take_append_drop (xs.length / 2) xs
    exact (ih.append_right _).trans (by rw [List.cons_append, split])
  | case3 xs y right h _ _ ih =>
    have split := h ▸ List.take_append_drop (xs.length / 2) xs
    exact ((ih.cons y).append_left _).trans
      (((List.Perm.swap x y right).append_left _).trans (List.perm_middle.trans (by rw [split])))

/-- **Nothing is lost.** Whatever the comparison says, a sorted list has the elements of the list.
-/
theorem insertionSort_perm (less : α → α → Bool) (xs : List α) :
    (insertionSort less xs).Perm xs := by
  have put (rest run : List α) :
      (rest.foldl (fun sorted x => insertByHalving less x sorted) run).Perm (run ++ rest) := by
    induction rest generalizing run with
    | nil => rw [List.append_nil]; exact .refl _
    | cons x rest ih =>
      exact (ih _).trans (((insertByHalving_perm less x run).append_right _).trans
        List.perm_middle.symm)
  exact (put _ _).trans (firstRun_perm less xs)

end ClassAtlas
