import ClassAtlas.Proofs.Code.Declarations

/-!
# Taking nested types out of a body

A nested type is taken out from its first modifier to its closing brace. A modifier may stand lines
before the type it belongs to, with other modifiers between them, but only words and blanks may. So
a declaration that ends with a mark cannot be mistaken for the beginning of a nested type, and what
is left of a body is the members that stand in it and no others.
-/

namespace ClassAtlas.Code

open Text

variable {before : Option Char} {u rest : List Char} {c : Char}

/-! ## Modifiers before a type -/

/-- What has been read when a step over modifiers is taken again and again. -/
structure Skipped (u : List Char) : Prop where
  chars : ∀ c ∈ u, isWord c = true ∨ isBlank c = true
  start : u ≠ [] → u.head?.any isWord = true
  stop : u ≠ [] → ∀ b, (lastOf b u).any isWord = false

theorem Row.Of.skipped {words : List (List Char)} {ks : Row} (hwords : ∀ w ∈ words, IsWord w)
    (h : ks.Of words) : Skipped ks.chars := by
  refine ⟨?_, fun hne => ?_, fun hne b => ?_⟩
  · exact h.forall_chars (fun w hw c hc => Or.inl ((hwords w hw).2 c hc))
      fun g hg c hc => Or.inr (hg.2 c hc)
  · cases ks with
    | nil => exact absurd rfl hne
    | cons k ks =>
      rw [Row.chars_cons]
      exact (hwords _ (h k (by simp)).1).head _
  · rw [lastOf_congr hne b none]
    exact h.ends rfl

theorem skipped_of_mem_reach {words : List (List Char)} (hwords : ∀ w ∈ words, IsWord w) {n : Nat}
    {s r : List Char} (h : r ∈ reach (skipWord words) n s) : ∃ u, s = u ++ r ∧ Skipped u := by
  obtain ⟨ks, hks, rfl⟩ := exists_row_of_mem_reach h
  exact ⟨ks.chars, rfl, hks.skipped hwords⟩

theorem isWord_typeModifiers : ∀ w ∈ typeModifiers, IsWord w := by decide +kernel

/-- A nested type begins with words and blanks up to a keyword that heads a name. -/
theorem of_nestedType {s : List Char} (h : Matches nestedType before s) :
    s.head?.any isWord = true ∧ ∃ u v, s = u ++ v ∧
      (∀ c ∈ u, isWord c = true ∨ isBlank c = true) ∧
      Heads nestedTypeWords (lastOf before u) v := by
  obtain ⟨⟨_, r⟩, heq⟩ := Option.isSome_iff_exists.mp h
  unfold nestedType at heq
  simp only [guard_eq_some, Option.bind_eq_bind, Option.bind_eq_some_iff] at heq
  obtain ⟨_, hb, t, hfind, ⟨name, r'⟩, hword, _⟩ := heq
  obtain ⟨v, hv, hskip⟩ := List.exists_of_findSome?_eq_some hfind
  obtain ⟨u, rfl, hu⟩ := skipped_of_mem_reach isWord_typeModifiers hv
  obtain ⟨w, hw, g, rfl, hne, hg⟩ := skipWord_eq_some hskip
  obtain ⟨rfl, hname, _⟩ := word_eq_some_iff.mp hword
  have hhead := (isWord_nestedTypeWords w hw).head (g ++ (name ++ r'))
  have hfollows : wordFollows (g ++ (name ++ r')) = true := by
    unfold wordFollows
    rw [trimStart_append hg, trimStart_of_ends (hname.blanksEnd r'), hname.head r', Bool.and_true]
    cases g with
    | nil => exact absurd rfl hne
    | cons c g => exact hg c (by simp)
  refine ⟨?_, u, _, rfl, hu.chars, ?_, w, hw, _, rfl, hfollows⟩
  · cases u with
    | nil => exact hhead
    | cons c u => exact hu.start (by simp)
  · -- the keyword stands at the first place or behind the blanks of a modifier
    by_cases hnil : u = []
    · rw [hnil] at hb ⊢
      exact hb
    · exact isBoundary_word (hu.stop hnil before) (isWord_nestedTypeWords w hw) _

theorem wordy_nestedType : Wordy (Matches nestedType) := fun _ _ h => (of_nestedType h).1

/-- No nested type begins at the start of a silent piece that ends with a mark: what is read before
the keyword would stop before the mark, so the keyword would stand in the piece. -/
theorem not_nestedType (h : Silent nestedTypeWords before (u ++ [c]) rest)
    (hc : isWord c = false) (hb : isBlank c = false) :
    ¬ Matches nestedType before (u ++ c :: rest) := by
  intro hmatch
  obtain ⟨_, w, v, heq, hchars, hheads⟩ := of_nestedType hmatch
  have hmark : c ∉ w := by
    intro hin
    rcases hchars c hin with hword | hblank
    · rw [hc] at hword
      exact absurd hword (by simp)
    · rw [hb] at hblank
      exact absurd hblank (by simp)
  -- the header has no such character, so all of it stands before the mark
  obtain ⟨t, rfl, rfl⟩ : ∃ t, u = w ++ t ∧ v = t ++ c :: rest := by
    rcases List.append_eq_append_iff.mp heq with ⟨t, rfl, hrest⟩ | ⟨t, hu, hv⟩
    · cases t with
      | nil => exact ⟨[], by simp, hrest.symm⟩
      | cons d t =>
        obtain ⟨rfl, _⟩ := List.cons.inj hrest
        exact absurd (by simp) hmark
    · exact ⟨t, hu, hv⟩
  rw [List.append_assoc] at h
  refine h.not_at (by simp) ?_
  rw [List.append_assoc]
  exact hheads

theorem nowhere_nestedType (h : Silent nestedTypeWords before (u ++ [c]) rest)
    (hc : isWord c = false) (hb : isBlank c = false) :
    Nowhere (Matches nestedType) before (u ++ [c]) rest := by
  induction u generalizing before with
  | nil => exact ⟨not_nestedType (u := []) h hc hb, trivial⟩
  | cons d u ih =>
    refine ⟨?_, ih h.2⟩
    show ¬ Matches nestedType before (d :: (u ++ [c] ++ rest))
    rw [List.append_assoc]
    exact not_nestedType h hc hb

/-! ## A nested type -/

theorem prefixFree_typeModifiers : PrefixFree typeModifiers := by decide +kernel

/-- No keyword is skipped as a modifier. -/
theorem skipWord_keyword {w t : List Char} (hw : w ∈ nestedTypeWords) (ht : WordEnds t) :
    skipWord typeModifiers (w ++ t) = none := by
  have hapart : ∀ w ∈ nestedTypeWords, w ∉ typeModifiers := by decide +kernel
  cases hskip : skipWord typeModifiers (w ++ t) with
  | none => rfl
  | some r =>
    have hword := skipWord_word isWord_typeModifiers (isWord_nestedTypeWords w hw) ht hskip
    exact absurd hword.1 (hapart w hw)

/-- Behind modifiers the keyword is found. -/
theorem findSome?_keyword {ks : Row} {w g s : List Char} (h : ks.Of typeModifiers)
    (hw : w ∈ nestedTypeWords) (hg : IsGap g) (hs : BlanksEnd s) :
    (reach (skipWord typeModifiers) (ks.chars ++ (w ++ (g ++ s))).length
        (ks.chars ++ (w ++ (g ++ s)))).findSome? (skipWord nestedTypeWords) = some s :=
  h.findSome?_reach prefixFree_typeModifiers isWord_typeModifiers
    ((isWord_nestedTypeWords w hw).blanksEnd _)
    (skipWord_keyword hw (wordEnds_of_blanks (hg.not_blanksEnd s)))
    (skipWord_append prefixFree_nestedTypeWords hw hg hs) (h.length_le isWord_typeModifiers _)

/-- A nested type is read to its closing brace. -/
theorem nestedType_heading {h : Heading} {inner : Source} (hb : before.any isWord = false)
    (hh : h.WellFormed) (hinner : inner.WellFormed) (rest : List Char) :
    nestedType before (h.bareChars ++ '{' :: (inner.chars ++ (h.close ++ '}' :: rest))) =
      some ((), rest) := by
  -- a heading is written with one modifier
  let modifiers : Row := [("public".toList, [' '])]
  have hmodifiers : modifiers.Of typeModifiers := by decide +kernel
  have htext : h.bareChars ++ '{' :: (inner.chars ++ (h.close ++ '}' :: rest)) =
      modifiers.chars ++ (h.sort.word ++ ([' '] ++ (h.name.toList ++
        (h.tailChars ++ '{' :: (inner.chars ++ (h.close ++ '}' :: rest)))))) := by
    unfold Heading.bareChars
    simp only [modifiers, Row.chars_cons, Row.chars_nil, List.append_assoc, List.cons_append,
      List.nil_append, List.append_nil]
  have hkeyword : h.sort.word ∈ nestedTypeWords := by cases h.sort <;> decide +kernel
  have hend := (tail_markFollows hh (inner.chars ++ (h.close ++ '}' :: rest))).1
  have hheader : afterHeader nestedTypeWords h.name.toList.getLast?
      (h.tailChars ++ '{' :: (inner.chars ++ (h.close ++ '}' :: rest))) =
        some (inner.chars ++ (h.close ++ '}' :: rest)) :=
    afterHeader_append isWord_nestedTypeWords (plain_tailChars hh)
      (silent_tailChars isWord_nestedTypeWords hh)
  rw [htext]
  unfold nestedType
  simp only [guard, hmodifiers.isBoundary_iff isWord_typeModifiers (isWord_word h.sort), hb,
    if_true, Option.pure_def, Option.bind_eq_bind, Option.bind_some,
    findSome?_keyword hmodifiers hkeyword isGap_space (hh.name.blanksEnd _),
    word_append hh.name hend, hheader, splitClose_body hh hinner, List.drop_succ_cons,
    List.drop_zero]

/-! ## What is left -/

/-- The text of the members that stand in no type of a source, with the blanks between them. -/
def Source.ownChars : Source → List Char
  | .nil => []
  | .member m rest => m.chars ++ rest.ownChars
  | .type h _ rest => h.lead ++ rest.ownChars

/-- The text ends with a mark. -/
def EndsInMark (u : List Char) : Prop :=
  ∃ v c, u = v ++ [c] ∧ isWord c = false ∧ isBlank c = false

theorem EndsInMark.append {v : List Char} (h : EndsInMark v) (u : List Char) :
    EndsInMark (u ++ v) := by
  obtain ⟨w, c, rfl, hc, hb⟩ := h
  exact ⟨u ++ w, c, by simp, hc, hb⟩

theorem EndsInMark.cons {v : List Char} (h : EndsInMark v) (d : Char) : EndsInMark (d :: v) :=
  h.append [d]

theorem EndsInMark.lastOf (h : EndsInMark u) (before : Option Char) :
    (lastOf before u).any isWord = false := by
  obtain ⟨w, c, rfl, hc, _⟩ := h
  rw [lastOf_append]
  exact hc

theorem endsInMark_methodBody (body : MethodBody) : EndsInMark body.chars := by
  cases body with
  | empty => exact ⟨" \x7b ".toList, '}', by decide +kernel, by decide, by decide⟩
  | stub =>
    exact ⟨"\n    \x7b\n        // Method body\n    ".toList, '}', by decide +kernel,
      by decide, by decide⟩
  | missing => exact ⟨[], ';', by decide +kernel, by decide, by decide⟩

theorem endsInMark_form (form : MemberForm) : EndsInMark form.chars := by
  cases form with
  | property => exact ⟨" \x7b get; set; ".toList, '}', by decide +kernel, by decide, by decide⟩
  | method ps body => exact (((endsInMark_methodBody body).cons ')').append _).cons '('

theorem endsInMark_member (m : SourceMember) : EndsInMark m.bareChars :=
  (((((endsInMark_form m.form).append _).cons ' ').append _).cons ' ').append _

theorem lastOf_blanks (hu : ∀ c ∈ u, isBlank c = true) (hb : before.any isWord = false) :
    (lastOf before u).any isWord = false := by
  by_cases hnil : u = []
  · rw [hnil]
    exact hb
  · obtain ⟨c, hc, heq⟩ := lastOf_mem hnil before
    rw [heq]
    exact isWord_of_isBlank (hu c hc)

theorem nowhere_nestedType_member {m : SourceMember} (hm : m.WellFormed) :
    Nowhere (Matches nestedType) before m.chars rest := by
  obtain ⟨u, c, hu, hc, hb⟩ := endsInMark_member m
  have hsilent : Silent nestedTypeWords (lastOf before m.lead) m.bareChars rest := silent_member hm
  refine Nowhere.append (nowhere_blanks wordy_nestedType hm.lead) ?_
  rw [hu] at hsilent ⊢
  exact nowhere_nestedType hsilent hc hb

theorem eraseFrom_source {s : Source} (hs : s.WellFormed) (hb : before.any isWord = false) :
    eraseFrom nestedType before (s.chars ++ rest) =
      s.ownChars ++ eraseFrom nestedType (lastOf before s.chars) rest := by
  induction s generalizing before with
  | nil => rfl
  | member m next ih =>
    obtain ⟨hm, hnext⟩ := hs
    have hlast : (lastOf before m.chars).any isWord = false := by
      rw [SourceMember.chars, lastOf_append]
      exact (endsInMark_member m).lastOf _
    rw [Source.chars, List.append_assoc, eraseFrom_of_nowhere (nowhere_nestedType_member hm),
      ih hnext hlast, lastOf_append, Source.ownChars, List.append_assoc]
  | type h inner next _ ih =>
    obtain ⟨hh, hinner, hnext⟩ := hs
    have hlead : Nowhere (Matches nestedType) before h.lead
        (h.bareChars ++ '{' :: (inner.chars ++ (h.close ++ '}' :: (next.chars ++ rest)))) :=
      nowhere_blanks wordy_nestedType hh.lead
    -- the type with all that is inside it is one occurrence
    have hfound := nestedType_heading (lastOf_blanks hh.lead hb) hh hinner (next.chars ++ rest)
    have hbody : h.bareChars ++ '{' :: (inner.chars ++ (h.close ++ '}' :: (next.chars ++ rest))) =
        (h.bareChars ++ '{' :: (inner.chars ++ (h.close ++ ['}']))) ++ (next.chars ++ rest) := by
      simp
    have hlast : ∀ b, (lastOf b (h.bareChars ++ '{' ::
        (inner.chars ++ (h.close ++ ['}'])))).any isWord = false := by
      intro b
      simp only [lastOf_append, lastOf_cons, lastOf_nil]
      decide
    rw [chars_type_append, eraseFrom_of_nowhere hlead]
    rw [hbody] at hfound ⊢
    rw [eraseFrom_of_found hfound (by simp), ih hnext (hlast _)]
    simp [Source.ownChars, Source.chars]

/-- Without the nested types a body is the members that stand in it. -/
theorem withoutNested_body {h : Heading} {inner : Source} (hh : h.WellFormed)
    (hinner : inner.WellFormed) :
    withoutNested (inner.chars ++ h.close) = inner.ownChars ++ h.close := by
  have hclose : Nowhere (Matches nestedType) (lastOf none inner.chars) h.close [] :=
    nowhere_blanks wordy_nestedType hh.close
  show eraseFrom nestedType none (inner.chars ++ h.close) = _
  rw [eraseFrom_source hinner rfl, eraseFrom_eq_self hclose]

end ClassAtlas.Code
