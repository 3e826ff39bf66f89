import ClassAtlas.Proofs.Text.Rounds
import ClassAtlas.Proofs.Code.ClosingBraces
import ClassAtlas.Proofs.Code.NestedHeaders

/-!
# What is left of a body

Nested types are taken out of a body in rounds. Each one looks for the first header from a place on
and goes on behind the brace that closes the block of the header, or at the end of the body if no
brace does. This makes sense for any text, whether or not its braces match: the rounds move forward,
so they end, and only what lies in their stretches is lost.

Where the braces of the body match, every block that a header opens is closed, and its stretch opens
and closes as many blocks. So the braces of what is left match as well.
-/

namespace ClassAtlas.Code

open Text

variable {body s : List Char} {depth place : Nat} {cut : Stretch}

/-! ## Rounds -/

/-- A stretch of a body is a nested type: it begins with a header, where no word goes on, and ends
behind the brace that closes the block of the header, or with the body if none does. -/
def IsNestedType (body : List Char) (cut : Stretch) : Prop :=
  (lastOf none (body.take cut.start)).any isWord = false ∧
    ∃ h : NestedHeader, body.drop cut.start = h.text ∧
      ∃ i, EndsAt body (cut.start + h.chars.length) i ∧ cut.stop = min (i + 1) body.length

/-- A round from a place on: the nested type with the first header from there on. -/
structure Round (body : List Char) (place : Nat) (cut : Stretch) : Prop where
  /-- It is not before the place. -/
  behind : place ≤ cut.start
  /-- No nested type is headed between. -/
  first : ∀ i, place ≤ i → i < cut.start → ¬ HoldsAt IsNestedHeader body i
  /-- It is a nested type. -/
  nested : IsNestedType body cut

theorem drop_min_length (s : List Char) (n : Nat) : s.drop (min n s.length) = s.drop n := by
  rcases Nat.le_total n s.length with hle | hle
  · rw [Nat.min_eq_left hle]
  · rw [Nat.min_eq_right hle, List.drop_length, List.drop_eq_nil_of_le hle]

/-- Behind a header, what is left behind its block begins where the block ends. -/
theorem drop_splitClose {start i : Nat} {h : NestedHeader} (hbody : body.drop start = h.text)
    (hi : EndsAt body (start + h.chars.length) i) :
    (splitClose 0 h.rest).2.drop 1 = body.drop (i + 1) := by
  have hrest : body.drop (start + h.chars.length) = h.rest := by
    rw [← List.drop_drop, hbody]
    exact List.drop_left
  obtain ⟨j, hj, hsplit⟩ := exists_endsAt body (start + h.chars.length)
  rw [hrest] at hsplit
  rw [hsplit, hi.unique hj, List.drop_drop]

/-- The search for nested types goes from one header to the next. -/
theorem nextFound_iff : NextFound nestedType body place cut ↔ Round body place cut := by
  constructor
  · rintro ⟨hbehind, hfirst, ⟨_, hreads⟩, hinside⟩
    obtain ⟨hstarts, h, hbody, hrest⟩ := nestedType_eq_some_iff.mp hreads
    -- the cut ends where the braces close; the reader says so by the length of what is left
    obtain ⟨i, hi, _⟩ := exists_endsAt body (cut.start + h.chars.length)
    rw [drop_splitClose hbody hi] at hrest
    have hlength := congrArg List.length hrest
    rw [List.length_drop, List.length_drop] at hlength
    refine ⟨hbehind, fun j hle hlt hheader => ?_, hstarts, h, hbody, i, hi, by omega⟩
    exact hfirst j hle hlt (matches_nestedType_iff.mpr hheader)
  · rintro ⟨hbehind, hfirst, hstarts, h, hbody, i, hi, hstop⟩
    refine ⟨hbehind, fun j hle hlt hmatch => ?_, ⟨(), ?_⟩, ?_⟩
    · exact hfirst j hle hlt (matches_nestedType_iff.mp hmatch)
    · rw [nestedType_eq_some_iff]
      refine ⟨hstarts, h, hbody, ?_⟩
      rw [hstop, drop_min_length, drop_splitClose hbody hi]
    · rw [hstop]
      exact Nat.min_le_right ..

/-- What is read for a nested type begins with its header and ends behind its block. -/
theorem exists_block {before : Option Char} {r : List Char}
    (hread : nestedType before s = some ((), r)) :
    ∃ (h : NestedHeader) (u : List Char), Within 0 u ∧
      ((s = h.chars ++ u ∧ r = []) ∨
        (s = h.chars ++ (u ++ '}' :: r) ∧ u.count '}' = u.count '{')) := by
  obtain ⟨_, h, rfl, rfl⟩ := nestedType_eq_some_iff.mp hread
  obtain ⟨u, r, hsplit, hrest, hwithin, hend⟩ := splitClose_spec 0 h.rest
  refine ⟨h, u, hwithin, ?_⟩
  rw [hsplit, NestedHeader.text, hrest]
  rcases hend with rfl | ⟨t, rfl, htotal⟩
  · exact .inl ⟨by rw [List.append_nil], rfl⟩
  · exact .inr ⟨rfl, by omega⟩

theorem consumes_nestedType : Consumes nestedType := by
  rintro before s ⟨⟩ r hread
  obtain ⟨h, u, _, ⟨rfl, rfl⟩ | ⟨rfl, _⟩⟩ := exists_block hread
  · exact ⟨h.chars ++ u, List.append_ne_nil_of_left_ne_nil h.chars_ne_nil _,
      (List.append_nil _).symm⟩
  · exact ⟨h.chars ++ (u ++ ['}']), List.append_ne_nil_of_left_ne_nil h.chars_ne_nil _, by simp⟩

theorem Round.forward (h : Round body place cut) : place < cut.stop ∧ cut.stop ≤ body.length := by
  have hfound := nextFound_iff.mpr h
  have hlt := hfound.forward consumes_nestedType
  exact ⟨Nat.lt_of_le_of_lt h.behind hlt, hfound.inside⟩

/-! ## Balanced bodies -/

theorem count_of_plain {u : List Char} (hu : Plain u) : u.count '{' = 0 ∧ u.count '}' = 0 :=
  ⟨List.count_eq_zero.mpr fun hin => (hu _ hin).1 rfl,
    List.count_eq_zero.mpr fun hin => (hu _ hin).2.1 rfl⟩

/-- A header opens one block. -/
theorem shuts_header {h : NestedHeader} (hs : Shuts depth (h.chars ++ s)) :
    Shuts (depth + 1) s := by
  obtain ⟨hopen, hclose⟩ := count_of_plain h.plain_front
  have hbehind := (shuts_append.mp hs).2
  rw [NestedHeader.chars, List.count_append, List.count_append, hopen, hclose] at hbehind
  simpa using hbehind

/-- Where all open blocks are closed in a text, they are closed in what is left of it without the
nested types. -/
theorem Shuts.withoutNested {before : Option Char} (h : Shuts depth s) :
    Shuts depth (eraseFrom nestedType before s) := by
  induction before, s using scan_induction consumes_nestedType generalizing depth with
  | stop before s hnowhere => rwa [eraseFrom_eq_self hnowhere]
  | round before t u s a hnowhere hne hreads ih =>
    obtain ⟨hwithin, hbehind⟩ := shuts_append.mp h
    rw [eraseFrom_of_nowhere hnowhere, eraseFrom_of_found hreads hne, ← lastOf_append]
    refine shuts_append.mpr ⟨hwithin, ih ?_⟩
    obtain ⟨header, w, hw, ⟨hs, rfl⟩ | ⟨hs, heven⟩⟩ := exists_block hreads
    · -- the block of the header is closed somewhere
      rw [hs] at hbehind
      have htotal := (shuts_header hbehind).total
      have hle := hw w (List.prefix_refl w)
      omega
    · rw [hs] at hbehind
      have hclosing := (shuts_append.mp (shuts_header hbehind)).2
      rw [heven, Nat.add_sub_cancel, ← List.singleton_append, shuts_append] at hclosing
      simpa using hclosing.2

/-- **What is left of a body without its nested types.** The text behind a start is split where the
first brace closes that stands behind as many opening as closing ones, and at its end if there is no
such brace. By this the nested types of a body are taken out of it, whether or not its braces match.
Every round that looks for one moves forward and stays in the body, so after some rounds there is no
further one. Their stretches stand apart and in order, each is a nested type up to the end of its
block, and what is left is the characters that lie in none of them. If the braces of the body are
balanced, those of what is left are. -/
theorem nested_types_cut_out (text body : List Char) (start : Nat) :
    (∃ i, EndsAt text start i ∧
        splitClose 0 (text.drop start) = (text.extract start i, text.drop i)) ∧
      (∀ place cut, Round body place cut → place < cut.stop ∧ cut.stop ≤ body.length) ∧
      (∃ cuts, Rounds (Round body) 0 cuts ∧
        cuts.Pairwise (fun cut cut' => cut.stop ≤ cut'.start) ∧
        (∀ cut ∈ cuts, cut.start < cut.stop ∧ IsNestedType body cut) ∧
        withoutNested body = outside 0 cuts body) ∧
      (BraceBalanced body → BraceBalanced (withoutNested body)) := by
  refine ⟨exists_endsAt text start, fun _ _ hround => hround.forward, ?_, Shuts.withoutNested⟩
  obtain ⟨cuts, hcuts, herase⟩ := exists_rounds consumes_nestedType body
  have hforward {place : Nat} {cut : Stretch} (hcut : NextFound nestedType body place cut) :
      cut.start < cut.stop := hcut.forward consumes_nestedType
  have hordered := hcuts.ordered fun _ _ hcut => ⟨hcut.behind, hforward hcut⟩
  refine ⟨cuts, hcuts.congr nextFound_iff, hordered.2, fun cut hcut => ?_, herase⟩
  obtain ⟨place, hround⟩ := hcuts.exists_round cut hcut
  exact ⟨hforward hround, (nextFound_iff.mp hround).nested⟩

/-- The body of a class with a structure between its fields and a method with a block. -/
def yardBody : String :=
  "int a;\npublic struct Plot : Area \x7b int x; void Mow() \x7b \x7d \x7d\nvoid Rake() \x7b \x7d"

theorem nested_types_cut_out_yard :
    BraceBalanced yardBody.toList ∧
      withoutNested yardBody.toList = "int a;\n\nvoid Rake() \x7b \x7d".toList ∧
      BraceBalanced (withoutNested yardBody.toList) ∧
      ∃ cuts, Rounds (Round yardBody.toList) 0 cuts ∧
        outside 0 cuts yardBody.toList = "int a;\n\nvoid Rake() \x7b \x7d".toList := by
  have hbalanced : BraceBalanced yardBody.toList := by decide +kernel
  have hleft : withoutNested yardBody.toList =
      "int a;\n\nvoid Rake() \x7b \x7d".toList := by decide +kernel
  obtain ⟨_, _, ⟨cuts, hrounds, _, _, houtside⟩, hkept⟩ :=
    nested_types_cut_out yardBody.toList yardBody.toList 0
  exact ⟨hbalanced, hleft, hkept hbalanced, cuts, hrounds, houtside.symm.trans hleft⟩

end ClassAtlas.Code
