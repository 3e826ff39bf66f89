import ClassAtlas.Text.Scan

/-!
# Places in a text

A pattern is tried at every place of a text that no earlier occurrence covers. What a scan of a long
text gives is therefore put together from what it gives on the pieces of the text, as long as no
occurrence runs across the end of a piece: a piece in which the pattern matches *nowhere* is passed
over, and a piece that the pattern matches at its first place and reads to its end is one
occurrence. A piece at none of whose places the pattern takes notice of what follows the piece may
be scanned on its own.

A place is given by the character before it and the text after it. Every statement about a piece
carries the text that follows the piece, since a pattern may look beyond the end of what it reads.
-/

namespace ClassAtlas.Text

variable {α : Type}

/-- The character before the place that is reached by reading a text. -/
def lastOf : Option Char → List Char → Option Char
  | before, [] => before
  | _, c :: s => lastOf (some c) s

@[simp] theorem lastOf_nil (before : Option Char) : lastOf before [] = before := rfl

@[simp] theorem lastOf_cons (before : Option Char) (c : Char) (s : List Char) :
    lastOf before (c :: s) = lastOf (some c) s := rfl

@[simp] theorem lastOf_append (before : Option Char) (u v : List Char) :
    lastOf before (u ++ v) = lastOf (lastOf before u) v := by
  induction u generalizing before with
  | nil => rfl
  | cons c u ih => exact ih (some c)

theorem lastOf_mem {u : List Char} (hu : u ≠ []) (before : Option Char) :
    ∃ c ∈ u, lastOf before u = some c := by
  induction u generalizing before with
  | nil => exact absurd rfl hu
  | cons c u ih =>
    cases u with
    | nil => exact ⟨c, by simp, rfl⟩
    | cons d u =>
      obtain ⟨e, he, heq⟩ := ih (by simp) (some c)
      exact ⟨e, List.mem_cons_of_mem _ he, heq⟩

theorem lastOf_eq_getLastD {u : List Char} (hu : u ≠ []) (before : Option Char) (d : Char) :
    lastOf before u = some (u.getLastD d) := by
  induction u generalizing before d with
  | nil => exact absurd rfl hu
  | cons c u ih =>
    cases u with
    | nil => rfl
    | cons e u =>
      rw [lastOf_cons, ih (by simp) (some c) c]
      rfl

theorem lastOf_none (u : List Char) : lastOf none u = u.getLast? := by
  rcases List.eq_nil_or_concat u with rfl | ⟨v, c, rfl⟩
  · rfl
  · rw [List.concat_eq_append, lastOf_append, List.getLast?_concat]
    rfl

theorem lastOf_congr {u : List Char} (hu : u ≠ []) (before before' : Option Char) :
    lastOf before u = lastOf before' u := by
  rw [lastOf_eq_getLastD hu before ' ', lastOf_eq_getLastD hu before' ' ']

/-! ## Properties that hold at no place of a piece -/

/-- A property of places. -/
abbrev PlaceProp := Option Char → List Char → Prop

/-- A property holds at no place of a piece that stands between a character and a rest. -/
def Nowhere (P : PlaceProp) : Option Char → List Char → List Char → Prop
  | _, [], _ => True
  | before, c :: u, rest => ¬ P before (c :: (u ++ rest)) ∧ Nowhere P (some c) u rest

instance decidableNowhere {P : PlaceProp} [∀ before s, Decidable (P before s)] :
    (before : Option Char) → (u rest : List Char) → Decidable (Nowhere P before u rest)
  | _, [], _ => isTrue trivial
  | _, c :: u, rest =>
    have := decidableNowhere (P := P) (some c) u rest
    inferInstanceAs (Decidable (_ ∧ _))

variable {P Q : PlaceProp} {before : Option Char} {u v rest : List Char}

@[simp] theorem nowhere_nil : Nowhere P before [] rest := trivial

theorem nowhere_append :
    Nowhere P before (u ++ v) rest ↔
      Nowhere P before u (v ++ rest) ∧ Nowhere P (lastOf before u) v rest := by
  induction u generalizing before with
  | nil => simp
  | cons c u ih =>
    simp only [List.cons_append, Nowhere, lastOf_cons, ih, List.append_assoc, and_assoc]

theorem Nowhere.append (hu : Nowhere P before u (v ++ rest))
    (hv : Nowhere P (lastOf before u) v rest) : Nowhere P before (u ++ v) rest :=
  nowhere_append.mpr ⟨hu, hv⟩

theorem Nowhere.mono (h : Nowhere P before u rest) (hPQ : ∀ b s, Q b s → P b s) :
    Nowhere Q before u rest := by
  induction u generalizing before with
  | nil => trivial
  | cons c u ih => exact ⟨fun hq => h.1 (hPQ _ _ hq), ih h.2⟩

/-- The property fails at each place of the piece, told by what is read before the place. -/
theorem Nowhere.not_at (h : Nowhere P before (u ++ v) rest) (hv : v ≠ []) :
    ¬ P (lastOf before u) (v ++ rest) := by
  have hv' := (nowhere_append.mp h).2
  cases v with
  | nil => exact absurd rfl hv
  | cons c v => exact hv'.1

/-- A property holds nowhere in a piece if it fails at each place of it. -/
theorem nowhere_of_forall
    (h : ∀ x v, u = x ++ v → v ≠ [] → ¬ P (lastOf before x) (v ++ rest)) :
    Nowhere P before u rest := by
  induction u generalizing before with
  | nil => trivial
  | cons c u ih =>
    refine ⟨h [] (c :: u) rfl (by simp), ih fun x v hu hv => ?_⟩
    exact h (c :: x) v (by rw [hu]; rfl) hv

/-! ## Scans by pieces -/

/-- A pattern matches at a place. -/
def Matches (p : Pattern α) : PlaceProp := fun before s => (p before s).isSome = true

/-- The values of the occurrences in the text after a place. -/
def occurrencesFrom (p : Pattern α) (before : Option Char) (s : List Char) : List α :=
  (pieces p before 0 s).filterMap Piece.value?

/-- The text after a place without the occurrences in it. -/
def eraseFrom (p : Pattern α) (before : Option Char) (s : List Char) : List Char :=
  (pieces p before 0 s).filterMap Piece.char?

variable {p : Pattern α}

theorem pieces_covered (p : Pattern α) (before : Option Char) (u rest : List Char) :
    pieces p before u.length (u ++ rest) = pieces p (lastOf before u) 0 rest := by
  induction u generalizing before with
  | nil => rfl
  | cons c u ih => exact ih (some c)

theorem pieces_of_nowhere (h : Nowhere (Matches p) before u rest) :
    pieces p before 0 (u ++ rest) = u.map .plain ++ pieces p (lastOf before u) 0 rest := by
  induction u generalizing before with
  | nil => rfl
  | cons c u ih =>
    have hnone : p before (c :: (u ++ rest)) = none := by
      have := h.1
      simpa [Matches] using this
    rw [List.cons_append, pieces, hnone, List.map_cons, List.cons_append, lastOf_cons]
    exact congrArg (Piece.plain c :: ·) (ih h.2)

theorem pieces_of_found {a : α} (h : p before (u ++ rest) = some (a, rest)) (hu : u ≠ []) :
    pieces p before 0 (u ++ rest) = .found a :: pieces p (lastOf before u) 0 rest := by
  cases u with
  | nil => exact absurd rfl hu
  | cons c u =>
    rw [List.cons_append] at h ⊢
    rw [pieces, h]
    have hlen : (u ++ rest).length - rest.length = u.length := by simp
    simp only [hlen, lastOf_cons, pieces_covered]

@[simp] theorem occurrencesFrom_nil (p : Pattern α) (before : Option Char) :
    occurrencesFrom p before [] = [] := rfl

@[simp] theorem eraseFrom_nil (p : Pattern α) (before : Option Char) :
    eraseFrom p before [] = [] := rfl

theorem values_plain (u : List Char) :
    (u.map (Piece.plain (α := α))).filterMap Piece.value? = [] := by
  induction u with
  | nil => rfl
  | cons c u ih => exact ih

theorem chars_plain (u : List Char) :
    (u.map (Piece.plain (α := α))).filterMap Piece.char? = u := by
  induction u with
  | nil => rfl
  | cons c u ih => exact congrArg (c :: ·) ih

theorem occurrencesFrom_of_nowhere (h : Nowhere (Matches p) before u rest) :
    occurrencesFrom p before (u ++ rest) = occurrencesFrom p (lastOf before u) rest := by
  unfold occurrencesFrom
  rw [pieces_of_nowhere h, List.filterMap_append, values_plain, List.nil_append]

/-- A pattern that matches nowhere in a text is not found in it. -/
theorem occurrencesFrom_eq_nil (h : Nowhere (Matches p) before u []) :
    occurrencesFrom p before u = [] := by
  have hnone := occurrencesFrom_of_nowhere h
  rwa [List.append_nil, occurrencesFrom_nil] at hnone

theorem occurrencesFrom_of_found {a : α} (h : p before (u ++ rest) = some (a, rest))
    (hu : u ≠ []) :
    occurrencesFrom p before (u ++ rest) = a :: occurrencesFrom p (lastOf before u) rest := by
  unfold occurrencesFrom
  rw [pieces_of_found h hu]
  rfl

theorem eraseFrom_of_nowhere (h : Nowhere (Matches p) before u rest) :
    eraseFrom p before (u ++ rest) = u ++ eraseFrom p (lastOf before u) rest := by
  unfold eraseFrom
  rw [pieces_of_nowhere h, List.filterMap_append, chars_plain]

/-- A text in which a pattern matches nowhere is left as it is. -/
theorem eraseFrom_eq_self (h : Nowhere (Matches p) before u []) : eraseFrom p before u = u := by
  have herase := eraseFrom_of_nowhere h
  rwa [List.append_nil, eraseFrom_nil, List.append_nil] at herase

theorem eraseFrom_of_found {a : α} (h : p before (u ++ rest) = some (a, rest)) (hu : u ≠ []) :
    eraseFrom p before (u ++ rest) = eraseFrom p (lastOf before u) rest := by
  unfold eraseFrom
  rw [pieces_of_found h hu]
  rfl

/-- A text is read up to the first place where the pattern matches. -/
theorem untilFirst_of_match (hu : Nowhere (Matches p) before u rest)
    (hrest : rest = [] ∨ Matches p (lastOf before u) rest) :
    untilFirst p before (u ++ rest) = u := by
  induction u generalizing before with
  | nil =>
    rcases hrest with rfl | hmatch
    · rfl
    · cases rest with
      | nil => rfl
      | cons c rest => exact if_pos hmatch
  | cons c u ih =>
    have hnone : ¬ (p before (c :: (u ++ rest))).isSome = true := hu.1
    rw [List.cons_append, untilFirst, if_neg hnone, ih hu.2 hrest]

/-- What stands before the first occurrence, and where it ends. -/
theorem untilFirst_spec (p : Pattern α) (before : Option Char) (s : List Char) :
    ∃ r, s = untilFirst p before s ++ r ∧ Nowhere (Matches p) before (untilFirst p before s) r ∧
      (r = [] ∨ Matches p (lastOf before (untilFirst p before s)) r) := by
  induction s generalizing before with
  | nil => exact ⟨[], rfl, trivial, Or.inl rfl⟩
  | cons c s ih =>
    by_cases hmatch : (p before (c :: s)).isSome = true
    · have hnil : untilFirst p before (c :: s) = [] := by rw [untilFirst, if_pos hmatch]
      rw [hnil]
      exact ⟨c :: s, rfl, trivial, Or.inr hmatch⟩
    · -- no match here, so the character is kept and the first match is one behind it
      obtain ⟨r, hs, hnowhere, hend⟩ := ih (some c)
      have hcons : untilFirst p before (c :: s) = c :: untilFirst p (some c) s := by
        rw [untilFirst, if_neg hmatch]
      rw [hcons]
      refine ⟨r, by rw [List.cons_append, ← hs], ⟨?_, hnowhere⟩, hend⟩
      rwa [← hs]

/-- Every value comes from a place of the text at which the pattern matches. -/
theorem mem_occurrencesFrom {a : α} {s : List Char} (h : a ∈ occurrencesFrom p before s) :
    ∃ u v r, s = u ++ v ∧ p (lastOf before u) v = some (a, r) := by
  -- along the text, whatever part of it an earlier occurrence covers
  have key : ∀ (s : List Char) (before : Option Char) (n : Nat),
      a ∈ (pieces p before n s).filterMap Piece.value? →
      ∃ u v r, s = u ++ v ∧ p (lastOf before u) v = some (a, r) := by
    intro s
    induction s with
    | nil => intro before n h; cases n <;> simp [pieces] at h
    | cons c s ih =>
      intro before n h
      have later : ∀ m, a ∈ (pieces p (some c) m s).filterMap Piece.value? →
          ∃ u v r, c :: s = u ++ v ∧ p (lastOf before u) v = some (a, r) := by
        intro m hm
        obtain ⟨u, v, r, hs, hp⟩ := ih (some c) m hm
        exact ⟨c :: u, v, r, by rw [hs]; rfl, hp⟩
      cases n with
      | succ n => exact later n h
      | zero =>
        rw [pieces] at h
        split at h
        · rename_i b r hb
          rcases List.mem_cons.mp h with hab | hrest
          · exact ⟨[], c :: s, r, rfl, by rw [hab]; exact hb⟩
          · exact later _ hrest
        · exact later 0 h
  exact key s before 0 h

/-! ## Scans of texts put together -/

/-- At every place of a text the pattern reads the same, whether or not the rest stands behind the
text. -/
def Unbroken (p : Pattern α) : Option Char → List Char → List Char → Prop
  | _, [], _ => True
  | before, c :: u, rest =>
    p before (c :: (u ++ rest)) = (p before (c :: u)).map (fun (a, r) => (a, r ++ rest)) ∧
      Unbroken p (some c) u rest

theorem pieces_append (h : Unbroken p before u rest) {n : Nat} (hn : n ≤ u.length) :
    pieces p before n (u ++ rest) = pieces p before n u ++ pieces p (lastOf before u) 0 rest := by
  induction u generalizing before n with
  | nil =>
    obtain rfl : n = 0 := by simpa using hn
    rfl
  | cons c u ih =>
    obtain ⟨hplace, hu⟩ := h
    cases n with
    | succ n => exact ih hu (Nat.le_of_succ_le_succ hn)
    | zero =>
      rw [List.cons_append, pieces, pieces, hplace]
      cases p before (c :: u) with
      | none => exact congrArg (Piece.plain c :: ·) (ih hu (Nat.zero_le _))
      | some found =>
        obtain ⟨a, r⟩ := found
        -- a match covers as many characters in the longer text
        have hcovered : (u ++ rest).length - (r ++ rest).length = u.length - r.length := by
          rw [List.length_append, List.length_append]
          omega
        dsimp only [Option.map_some]
        rw [hcovered, ih hu (by omega), lastOf_cons, List.cons_append]

/-- The scan of two texts is the two scans, where nothing that begins in the first text looks into
the second one. -/
theorem occurrencesFrom_append (h : Unbroken p before u rest) :
    occurrencesFrom p before (u ++ rest) =
      occurrencesFrom p before u ++ occurrencesFrom p (lastOf before u) rest := by
  unfold occurrencesFrom
  rw [pieces_append h (Nat.zero_le _), List.filterMap_append]

/-- The character before a text matters at the first place only. -/
theorem occurrencesFrom_congr {before' : Option Char} (h : p before = p before') (s : List Char) :
    occurrencesFrom p before s = occurrencesFrom p before' s := by
  cases s with
  | nil => rfl
  | cons c s =>
    unfold occurrencesFrom
    rw [pieces, pieces, h]

end ClassAtlas.Text
