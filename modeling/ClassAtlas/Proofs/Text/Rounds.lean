import ClassAtlas.Proofs.Text.Places

/-!
# What a search takes out of a text

A search goes through a text in rounds. Each round looks for the first place, from where the last
round ended, at which the pattern matches, and takes out the stretch that the pattern reads there.
A pattern that reads something whenever it matches moves the search forward in every round, so the
rounds come to an end, the stretches stand apart and in order, and what is left is the characters
that lie in none of them.

Places are counted from the start of the text, so that the statements speak of the text as a whole
and not of what is left of it.
-/

namespace ClassAtlas.Text

variable {α : Type} {p : Pattern α} {before : Option Char} {s t u v : List Char} {n place : Nat}

/-! ## Stretches -/

/-- A stretch of a text, from the place of its first character to the place behind its last. -/
structure Stretch where
  start : Nat
  stop : Nat
deriving Repr, DecidableEq

/-- The place lies in the stretch. -/
def Stretch.Holds (cut : Stretch) (i : Nat) : Prop := cut.start ≤ i ∧ i < cut.stop

instance (cut : Stretch) (i : Nat) : Decidable (cut.Holds i) := inferInstanceAs (Decidable (_ ∧ _))

variable {cut : Stretch} {cuts : List Stretch}

/-- The characters of a text, counted from a place on, that lie in none of some stretches. -/
def outside (place : Nat) (cuts : List Stretch) (s : List Char) : List Char :=
  ((s.zipIdx place).filter fun (_, i) => ∀ cut ∈ cuts, ¬ cut.Holds i).map (·.1)

theorem outside_append (n : Nat) (cuts : List Stretch) (u v : List Char) :
    outside n cuts (u ++ v) = outside n cuts u ++ outside (n + u.length) cuts v := by
  unfold outside
  rw [List.zipIdx_append, List.filter_append, List.map_append]

/-- A text that no stretch reaches into stays as it is. -/
theorem outside_eq_self (h : ∀ cut ∈ cuts, n + s.length ≤ cut.start) : outside n cuts s = s := by
  unfold outside
  rw [List.filter_eq_self.mpr, List.zipIdx_map_fst]
  rintro ⟨c, i⟩ hi
  obtain ⟨_, hlt, _⟩ := List.mem_zipIdx hi
  refine decide_eq_true fun cut hcut hholds => ?_
  have hstart := h cut hcut
  have hle := hholds.1
  omega

/-- Nothing is left of a text within a stretch. -/
theorem outside_eq_nil (hcut : cut ∈ cuts) (hstart : cut.start ≤ n)
    (hstop : n + s.length ≤ cut.stop) : outside n cuts s = [] := by
  unfold outside
  rw [List.filter_eq_nil_iff.mpr, List.map_nil]
  rintro ⟨c, i⟩ hi hkept
  obtain ⟨hle, hlt, _⟩ := List.mem_zipIdx hi
  exact of_decide_eq_true hkept cut hcut ⟨by omega, by omega⟩

/-- A stretch before a text takes nothing from it. -/
theorem outside_cons_of_stop_le (h : cut.stop ≤ n) :
    outside n (cut :: cuts) s = outside n cuts s := by
  unfold outside
  congr 1
  refine List.filter_congr ?_
  rintro ⟨c, i⟩ hi
  obtain ⟨hle, _, _⟩ := List.mem_zipIdx hi
  have hnot : ¬ cut.Holds i := fun hholds => by
    have hlt := hholds.2
    omega
  simp [hnot]

/-- The first stretch is taken out of the text, and the other ones of what is behind it. -/
theorem outside_cut (h : ∀ cut ∈ cuts, n + u.length + v.length ≤ cut.start) :
    outside n (⟨n + u.length, n + u.length + v.length⟩ :: cuts) (u ++ (v ++ s)) =
      u ++ outside (n + u.length + v.length) cuts s := by
  -- the text in three parts: before the cut, within it, behind it
  have hbefore : outside n (⟨n + u.length, n + u.length + v.length⟩ :: cuts) u = u := by
    refine outside_eq_self (List.forall_mem_cons.mpr ⟨Nat.le_refl _, fun cut hcut => ?_⟩)
    have hle := h cut hcut
    omega
  have hwithin : outside (n + u.length) (⟨n + u.length, n + u.length + v.length⟩ :: cuts) v = [] :=
    outside_eq_nil (List.mem_cons_self ..) (Nat.le_refl _) (Nat.le_refl _)
  have hbehind : outside (n + u.length + v.length)
      (⟨n + u.length, n + u.length + v.length⟩ :: cuts) s =
        outside (n + u.length + v.length) cuts s := outside_cons_of_stop_le (Nat.le_refl _)
  rw [outside_append, hbefore, outside_append, hwithin, List.nil_append, hbehind]

/-! ## Rounds -/

/-- A property holds at a place of a text. -/
def HoldsAt (P : PlaceProp) (s : List Char) (i : Nat) : Prop :=
  P (lastOf none (s.take i)) (s.drop i)

theorem holdsAt_length {P : PlaceProp} (t v : List Char) :
    HoldsAt P (t ++ v) t.length ↔ P (lastOf none t) v := by
  unfold HoldsAt
  rw [List.take_left, List.drop_left]

/-- Where a property holds nowhere in a piece, it holds at none of its places. -/
theorem Nowhere.not_holdsAt {P : PlaceProp} {i : Nat} (h : Nowhere P (lastOf none t) u v)
    (hle : t.length ≤ i) (hlt : i < t.length + u.length) : ¬ HoldsAt P (t ++ (u ++ v)) i := by
  -- an index within the part cuts it in two
  obtain ⟨x, y, rfl, hx⟩ : ∃ x y, u = x ++ y ∧ x.length = i - t.length :=
    ⟨u.take (i - t.length), u.drop (i - t.length), (List.take_append_drop ..).symm,
      List.length_take_of_le (by omega)⟩
  have hplace : i = (t ++ x).length := by
    rw [List.length_append]
    omega
  have htext : t ++ (x ++ y ++ v) = t ++ x ++ (y ++ v) := by simp only [List.append_assoc]
  have hne : y ≠ [] := by
    rintro rfl
    rw [List.append_nil] at hlt
    omega
  rw [hplace, htext, holdsAt_length, lastOf_append]
  exact h.not_at hne

/-- A round of a search from a place on: the first place at which the pattern matches, and the end
of what it reads there. -/
structure NextFound (p : Pattern α) (s : List Char) (place : Nat) (cut : Stretch) : Prop where
  /-- It is not before the place. -/
  behind : place ≤ cut.start
  /-- The pattern matches at no place between. -/
  first : ∀ i, place ≤ i → i < cut.start → ¬ HoldsAt (Matches p) s i
  /-- The pattern reads the stretch. -/
  reads : ∃ a, p (lastOf none (s.take cut.start)) (s.drop cut.start) = some (a, s.drop cut.stop)
  /-- The stretch ends in the text. -/
  inside : cut.stop ≤ s.length

theorem NextFound.holdsAt (h : NextFound p s place cut) : HoldsAt (Matches p) s cut.start := by
  obtain ⟨a, hreads⟩ := h.reads
  exact Option.isSome_iff_exists.mpr ⟨_, hreads⟩

/-- Rounds from a place on, one from where the other ended, as long as there is another one. -/
inductive Rounds (next : Nat → Stretch → Prop) : Nat → List Stretch → Prop
  | stop {place : Nat} (h : ∀ cut, ¬ next place cut) : Rounds next place []
  | round {place : Nat} {cut : Stretch} {cuts : List Stretch} (h : next place cut)
      (rest : Rounds next cut.stop cuts) : Rounds next place (cut :: cuts)

theorem Rounds.congr {next next' : Nat → Stretch → Prop}
    (hnext : ∀ {place cut}, next place cut ↔ next' place cut) (h : Rounds next place cuts) :
    Rounds next' place cuts := by
  induction h with
  | stop hnone => exact .stop fun cut hcut => hnone cut (hnext.mpr hcut)
  | round hcut _ ih => exact .round (hnext.mp hcut) ih

/-- The stretches of rounds that go forward lie behind the place and one behind the other. -/
theorem Rounds.ordered {next : Nat → Stretch → Prop}
    (hnext : ∀ place cut, next place cut → place ≤ cut.start ∧ cut.start < cut.stop)
    (h : Rounds next place cuts) :
    (∀ cut ∈ cuts, place ≤ cut.start) ∧ cuts.Pairwise fun cut cut' => cut.stop ≤ cut'.start := by
  induction h with
  | stop _ => exact ⟨by simp, .nil⟩
  | @round place cut cuts hcut _ ih =>
    -- the rounds still to come all lie behind the end of this one
    obtain ⟨hbehind, hapart⟩ := ih
    obtain ⟨hle, hlt⟩ := hnext place cut hcut
    refine ⟨?_, List.pairwise_cons.mpr ⟨hbehind, hapart⟩⟩
    intro other hother
    rcases List.mem_cons.mp hother with rfl | hin
    · exact hle
    · have hlater := hbehind other hin
      omega

/-- Each stretch is that of a round. -/
theorem Rounds.exists_round {next : Nat → Stretch → Prop} (h : Rounds next place cuts) :
    ∀ cut ∈ cuts, ∃ place, next place cut := by
  induction h with
  | stop _ => simp
  | @round place cut cuts hcut _ ih =>
    intro other hother
    rcases List.mem_cons.mp hother with rfl | hin
    · exact ⟨place, hcut⟩
    · exact ih other hin

/-! ## Patterns that read something -/

/-- What a pattern reads stands at its place and is not empty. -/
def Consumes (p : Pattern α) : Prop :=
  ∀ before s a r, p before s = some (a, r) → ∃ u, u ≠ [] ∧ s = u ++ r

/-- Every round moves the search forward. -/
theorem NextFound.forward (hp : Consumes p) (h : NextFound p s place cut) :
    cut.start < cut.stop := by
  obtain ⟨a, hreads⟩ := h.reads
  obtain ⟨u, hne, hu⟩ := hp _ _ _ _ hreads
  have hlength := congrArg List.length hu
  rw [List.length_append, List.length_drop, List.length_drop] at hlength
  have hpos := List.length_pos_iff.mpr hne
  have hinside := h.inside
  omega

/-- A text is gone through from one occurrence to the next: it is enough to consider a text in which
the pattern matches nowhere, and one that begins with the text before an occurrence and the
occurrence. -/
theorem scan_induction (hp : Consumes p) {motive : Option Char → List Char → Prop}
    (stop : ∀ before s, Nowhere (Matches p) before s [] → motive before s)
    (round : ∀ before t u s a, Nowhere (Matches p) before t (u ++ s) → u ≠ [] →
      p (lastOf before t) (u ++ s) = some (a, s) → motive (lastOf before (t ++ u)) s →
      motive before (t ++ (u ++ s)))
    (before : Option Char) (s : List Char) : motive before s := by
  induction hlength : s.length using Nat.strongRecOn generalizing before s with
  | ind n ih =>
    obtain ⟨r, hs, hnowhere, hend⟩ := untilFirst_spec p before s
    rcases hend with rfl | hmatch
    · rw [List.append_nil] at hs
      rw [hs]
      exact stop before _ hnowhere
    · -- the induction is on the length: a match takes at least one character
      obtain ⟨⟨a, rest⟩, hreads⟩ := Option.isSome_iff_exists.mp hmatch
      obtain ⟨u, hne, rfl⟩ := hp _ _ _ _ hreads
      have hshorter : rest.length < n := by
        have hpos := List.length_pos_iff.mpr hne
        have hall := congrArg List.length hs
        rw [List.length_append, List.length_append] at hall
        omega
      rw [hs]
      exact round before _ u rest a hnowhere hne hreads (ih _ hshorter _ rest rfl)

/-- The search of a text behind another one goes in rounds, and what it leaves lies outside their
stretches. -/
theorem exists_rounds_behind (hp : Consumes p) (before : Option Char) (s : List Char) :
    ∀ t, lastOf none t = before → ∃ cuts, Rounds (NextFound p (t ++ s)) t.length cuts ∧
      eraseFrom p before s = outside t.length cuts s := by
  induction before, s using scan_induction hp with
  | stop before s hnowhere =>
    rintro t rfl
    refine ⟨[], .stop fun cut hcut => ?_, ?_⟩
    · have hforward := hcut.forward hp
      have hinside := hcut.inside
      rw [List.length_append] at hinside
      rw [← List.append_nil s] at hcut
      exact hnowhere.not_holdsAt hcut.behind (by omega) hcut.holdsAt
    · rw [eraseFrom_eq_self hnowhere, outside_eq_self (by simp)]
  | round before x u r a hnowhere hne hreads ih =>
    rintro t rfl
    obtain ⟨cuts, hrounds, herase⟩ := ih (t ++ (x ++ u)) (lastOf_append ..)
    have htext : t ++ (x ++ u) ++ r = t ++ (x ++ (u ++ r)) := by simp only [List.append_assoc]
    -- the next cut starts behind the silent part, and stops where the reader does
    have hstart : t.length + x.length = (t ++ x).length := List.length_append.symm
    have hstop : t.length + x.length + u.length = (t ++ (x ++ u)).length := by
      simp only [List.length_append, Nat.add_assoc]
    rw [htext] at hrounds
    rw [← hstop] at hrounds herase
    -- all later cuts are behind this one
    have hbehind := hrounds.ordered fun _ _ hcut => ⟨hcut.behind, hcut.forward hp⟩
    refine ⟨⟨t.length + x.length, t.length + x.length + u.length⟩ :: cuts,
      .round ⟨Nat.le_add_right .., ?_, ⟨a, ?_⟩, ?_⟩ hrounds, ?_⟩
    · exact fun i hle hlt => hnowhere.not_holdsAt hle hlt
    · show p (lastOf none ((t ++ (x ++ (u ++ r))).take (t.length + x.length)))
        ((t ++ (x ++ (u ++ r))).drop (t.length + x.length)) =
          some (a, (t ++ (x ++ (u ++ r))).drop (t.length + x.length + u.length))
      rw [hstop, ← htext, List.drop_left, htext, ← List.append_assoc, hstart, List.take_left,
        List.drop_left, lastOf_append]
      exact hreads
    · show t.length + x.length + u.length ≤ (t ++ (x ++ (u ++ r))).length
      simp only [List.length_append]
      omega
    · rw [eraseFrom_of_nowhere hnowhere, eraseFrom_of_found hreads hne, ← lastOf_append, herase,
        outside_cut hbehind.1]

/-- **What a search leaves.** The search of a text comes to an end after some rounds, and what it
leaves is the characters that lie in none of their stretches. -/
theorem exists_rounds (hp : Consumes p) (s : List Char) :
    ∃ cuts, Rounds (NextFound p s) 0 cuts ∧ erase p s = outside 0 cuts s :=
  exists_rounds_behind hp none s [] rfl

end ClassAtlas.Text
