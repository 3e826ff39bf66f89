import ClassAtlas.Proofs.Code.BaseLists

/-!
# Names in the base lists of any text

Whatever text a base list is read from, its names are identifiers, and none of them is the word that
begins the constraints on type parameters: a list is read only up to that word, and every name of
it stands whole in the text.
-/

namespace ClassAtlas.Code

open Text

variable {u p : List Char}

/-! ## Parts -/

/-- Reading a text from a place where no word goes on leads to another such place. -/
def Opens (x : List Char) : Prop :=
  ∀ before : Option Char, before.any isWord = false → (lastOf before x).any isWord = false

theorem opens_nil : Opens [] := fun _ h => h

theorem opens_append_mark (x : List Char) {c : Char} (hc : isWord c = false) :
    Opens (x ++ [c]) := fun before _ => by
  rw [lastOf_append]
  exact hc

theorem Opens.append {x y : List Char} (hx : Opens x) (hy : Opens y) : Opens (x ++ y) :=
  fun before h => by
    rw [lastOf_append]
    exact hy _ (hx _ h)

theorem opens_of_marks {x : List Char} (hx : ∀ c ∈ x, isWord c = false) : Opens x := by
  intro before h
  cases x with
  | nil => exact h
  | cons c x =>
    obtain ⟨d, hd, heq⟩ := lastOf_mem (List.cons_ne_nil c x) before
    rw [heq]
    exact hx d hd

/-- Nothing follows, or a mark does. -/
def Closes (y : List Char) : Prop := y = [] ∨ ∃ c z, y = c :: z ∧ isWord c = false

theorem Closes.append {y z : List Char} (hy : Closes y) (hz : Closes z) : Closes (y ++ z) := by
  rcases hy with rfl | ⟨c, y, rfl, hc⟩
  · exact hz
  · exact Or.inr ⟨c, y ++ z, rfl, hc⟩

/-- The first part of a list stands at its start, and every other one behind a comma. Behind each
part the list ends or a comma follows. -/
theorem splitTop_parts (depth : Nat) (u : List Char) :
    ∃ p ps, splitTop depth u = p :: ps ∧ (∃ y, u = p ++ y ∧ Closes y) ∧
      ∀ q ∈ ps, ∃ x y, u = x ++ ',' :: (q ++ y) ∧ Closes y := by
  induction u generalizing depth with
  | nil => exact ⟨[], [], rfl, ⟨[], rfl, Or.inl rfl⟩, fun q hq => absurd hq (by simp)⟩
  | cons c u ih =>
    -- the text is cut here, or the character belongs to the first part
    by_cases hsplit : c = ',' ∧ depth = 0
    · obtain ⟨rfl, rfl⟩ := hsplit
      obtain ⟨p, ps, heq, ⟨y, hy, hclose⟩, hps⟩ := ih 0
      have hcomma : isWord ',' = false := by decide
      refine ⟨[], p :: ps, by rw [splitTop, if_pos ⟨rfl, rfl⟩, heq],
        ⟨',' :: u, rfl, Or.inr ⟨',', u, rfl, hcomma⟩⟩, ?_⟩
      intro q hq
      rcases List.mem_cons.mp hq with rfl | hq
      · exact ⟨[], y, by rw [hy]; rfl, hclose⟩
      · obtain ⟨x, z, hz, hzclose⟩ := hps q hq
        exact ⟨',' :: x, z, by rw [hz]; rfl, hzclose⟩
    · obtain ⟨p, ps, heq, ⟨y, hy, hclose⟩, hps⟩ :=
        ih (if c = '<' then depth + 1 else if c = '>' then depth - 1 else depth)
      refine ⟨c :: p, ps, ?_, ⟨y, by rw [hy]; rfl, hclose⟩, ?_⟩
      · rw [splitTop, if_neg hsplit]
        dsimp only
        rw [heq, List.modifyHead_cons]
      · intro q hq
        obtain ⟨x, z, hz, hzclose⟩ := hps q hq
        exact ⟨c :: x, z, by rw [hz]; rfl, hzclose⟩

theorem of_mem_splitTop {depth : Nat} (h : p ∈ splitTop depth u) :
    ∃ x y, u = x ++ (p ++ y) ∧ Opens x ∧ Closes y := by
  obtain ⟨q, qs, heq, ⟨y, hy, hclose⟩, hqs⟩ := splitTop_parts depth u
  rw [heq] at h
  rcases List.mem_cons.mp h with rfl | h
  · exact ⟨[], y, hy, opens_nil, hclose⟩
  · obtain ⟨x, z, hz, hzclose⟩ := hqs p h
    exact ⟨x ++ [','], z, by rw [hz]; simp, opens_append_mark x (by decide), hzclose⟩

/-! ## Names -/

theorem lastName_split (path : List Char) : ∃ x, path = x ++ lastName path ∧ Opens x := by
  refine ⟨(path.reverse.dropWhile (· ≠ '.')).reverse, ?_, ?_⟩
  · unfold lastName
    rw [← List.reverse_append, List.takeWhile_append_dropWhile, List.reverse_reverse]
  · cases hdrop : path.reverse.dropWhile (· ≠ '.') with
    | nil => exact opens_nil
    | cons c x =>
      have hdot := List.head?_dropWhile_not (fun c => decide (c ≠ '.')) path.reverse
      rw [hdrop] at hdot
      obtain rfl : c = '.' := by simpa using hdot
      rw [List.reverse_cons]
      exact opens_append_mark _ (by decide)

/-- The name of a base stands whole in its part of the list. -/
theorem of_baseName? {name : String} (h : baseName? p = some name) :
    isIdentifier name.toList = true ∧
      ∃ x y, p = x ++ (name.toList ++ y) ∧ Opens x ∧ Closes y := by
  unfold baseName? at h
  dsimp only at h
  split at h
  · rename_i hid
    obtain rfl := Option.some.inj h
    rw [String.toList_ofList]
    refine ⟨hid, ?_⟩
    obtain ⟨g, b, htrim, hg, hb⟩ := trim_split (p.takeWhile (· ≠ '<'))
    obtain ⟨x, hpath, hopen⟩ := lastName_split (trim (p.takeWhile (· ≠ '<')))
    have hgOpens : Opens g := opens_of_marks fun c hc => isWord_of_isBlank (hg c hc)
    refine ⟨g ++ x, b ++ p.dropWhile (· ≠ '<'), ?_, hgOpens.append hopen, ?_⟩
    · calc p = p.takeWhile (· ≠ '<') ++ p.dropWhile (· ≠ '<') :=
            List.takeWhile_append_dropWhile.symm
        _ = (g ++ (trim (p.takeWhile (· ≠ '<')) ++ b)) ++ p.dropWhile (· ≠ '<') := by rw [← htrim]
        _ = (g ++ (x ++ lastName (trim (p.takeWhile (· ≠ '<'))) ++ b)) ++
            p.dropWhile (· ≠ '<') := by rw [← hpath]
        _ = _ := by simp only [List.append_assoc]
    · -- a blank follows the name, or the type arguments, or nothing
      cases b with
      | cons c b => exact Or.inr ⟨c, _, rfl, isWord_of_isBlank (hb c (by simp))⟩
      | nil =>
        cases hdrop : p.dropWhile (· ≠ '<') with
        | nil => exact Or.inl rfl
        | cons c r =>
          have hopen := List.head?_dropWhile_not (fun c => decide (c ≠ '<')) p
          rw [hdrop] at hopen
          obtain rfl : c = '<' := by simpa using hopen
          exact Or.inr ⟨'<', r, rfl, by decide⟩
  · exact absurd h (by simp)

/-- **The names that are read from a base list can be written in one.** -/
theorem of_mem_baseNames {text : List Char} {name : String} (h : name ∈ baseNames text) :
    isIdentifier name.toList = true ∧ name ≠ "where" := by
  unfold baseNames at h
  obtain ⟨part, hpart, hname⟩ := List.mem_filterMap.mp h
  obtain ⟨hid, x, y, rfl, hx, hy⟩ := of_baseName? hname
  obtain ⟨x', y', hread, hx', hy'⟩ := of_mem_splitTop hpart
  refine ⟨hid, ?_⟩
  rintro rfl
  obtain ⟨r, _, hnowhere, hend⟩ := untilFirst_spec whereWord none text
  have hword : IsWord "where".toList := isWord_of_isIdentifier hid
  have hsplit : untilFirst whereWord none text =
      (x' ++ x) ++ ("where".toList ++ (y ++ y')) := by
    rw [hread]
    simp only [List.append_assoc]
  rw [hsplit] at hnowhere hend
  have hends : WordEnds (y ++ y' ++ r) := by
    rcases hy.append hy' with hnil | ⟨c, z, heq, hc⟩
    · -- the text read ends with the word, so the word that stopped the reading cannot begin there
      rw [hnil] at hend ⊢
      rcases hend with rfl | hmatch
      · rfl
      · have hlast := lastOf_word hword (lastOf none (x' ++ x))
        rw [List.append_nil, lastOf_append] at hmatch
        exact (isBoundary_after hlast).mp (matches_whereWord hmatch).1
    · rw [heq]
      exact hc
  have hplace := hnowhere.not_at (fun hnil => hword.1 (List.append_eq_nil_iff.mp hnil).1)
  rw [List.append_assoc] at hplace
  exact hplace (matches_where ((hx'.append hx) none rfl) hends)

end ClassAtlas.Code
