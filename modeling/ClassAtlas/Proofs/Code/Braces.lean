import ClassAtlas.Proofs.Code.Silence

/-!
# Headers and bodies

The header of a declaration is read up to its brace as long as no other declaration begins in it,
and the brace that closes a body is found by counting. A text whose braces match is *sealed*: the
count is the same behind it as before it, so it is part of whatever body it stands in. Every source
is sealed.
-/

namespace ClassAtlas.Code

open Text

variable {words : List (List Char)} {before : Option Char} {u v w rest : List Char}

/-! ## Headers -/

theorem heads_of_declares {s : List Char}
    (h : declares words before s = true) : Heads words before s := by
  unfold declares at h
  obtain ⟨hb, hnext⟩ := Bool.and_eq_true_iff.mp h
  refine ⟨hb, ?_⟩
  cases hone : oneOf words s with
  | none => rw [hone] at hnext; exact absurd hnext (by simp)
  | some pair =>
    -- a type word, then a gap, then a word
    obtain ⟨w, r⟩ := pair
    obtain ⟨hw, rfl⟩ := oneOf_eq_some hone
    refine ⟨w, hw, r, rfl, ?_⟩
    rw [hone, Option.bind_some] at hnext
    dsimp only at hnext
    cases hgap : gap r with
    | none => rw [hgap] at hnext; exact absurd hnext (by simp)
    | some t =>
      obtain ⟨hblank, rfl⟩ := gap_eq_some_iff.mp hgap
      rw [hgap, Option.bind_some] at hnext
      unfold wordFollows
      rw [hnext, Bool.and_true]
      simpa [BlanksEnd] using hblank

/-- No brace or semicolon, which would end a header. -/
def Plain (u : List Char) : Prop := ∀ c ∈ u, c ≠ '{' ∧ c ≠ '}' ∧ c ≠ ';'

instance (u : List Char) : Decidable (Plain u) := inferInstanceAs (Decidable (∀ c ∈ u, _))

theorem declares_eq_false {s : List Char} (h : ¬ Heads words before s) :
    declares words before s = false := by
  cases hd : declares words before s with
  | false => rfl
  | true => exact absurd (heads_of_declares hd) h

/-- Of a header, a piece without braces in which nothing is headed makes no difference. -/
theorem afterHeader_of_silent {t : List Char} (hu : Plain u) (hs : Silent words before u t) :
    afterHeader words before (u ++ t) = afterHeader words (lastOf before u) t := by
  induction u generalizing before with
  | nil => rfl
  | cons c u ih =>
    obtain ⟨hopen, hclose, hsemi⟩ := hu c (by simp)
    rw [List.cons_append, afterHeader, declares_eq_false hs.1, if_neg (by simp), if_neg hopen,
      if_neg (by simp [hclose, hsemi])]
    exact ih (fun d hd => hu d (List.mem_cons_of_mem _ hd)) hs.2

theorem afterHeader_append (hwords : ∀ w ∈ words, IsWord w) (hu : Plain u)
    (hs : Silent words before u ('{' :: rest)) :
    afterHeader words before (u ++ '{' :: rest) = some rest := by
  -- the brace itself starts no declaration
  have hbrace : isWord '{' = false := by decide
  have hmark : ¬ Heads words (lastOf before u) ('{' :: rest) := fun h =>
    absurd (lexical_heads hwords _ _ h).2 (by simp [hbrace])
  rw [afterHeader_of_silent hu hs, afterHeader, declares_eq_false hmark]
  rfl

/-! ## Sealed texts -/

/-- The braces match. -/
def Sealed (u : List Char) : Prop :=
  ∀ depth s, splitClose depth (u ++ s) = (u ++ (splitClose depth s).1, (splitClose depth s).2)

theorem sealed_nil : Sealed [] := fun _ _ => rfl

theorem Sealed.append (hu : Sealed u) (hv : Sealed v) : Sealed (u ++ v) := by
  intro depth s
  rw [List.append_assoc, hu, hv]
  simp

theorem sealed_of_no_brace (hu : ∀ c ∈ u, c ≠ '{' ∧ c ≠ '}') : Sealed u := by
  induction u with
  | nil => exact sealed_nil
  | cons c u ih =>
    intro depth s
    obtain ⟨hopen, hclose⟩ := hu c (by simp)
    rw [List.cons_append, splitClose]
    simp only [hopen, hclose, false_and, if_false]
    rw [ih fun d hd => hu d (List.mem_cons_of_mem _ hd)]
    rfl

theorem Plain.sealed (hu : Plain u) : Sealed u :=
  sealed_of_no_brace fun c hc => ⟨(hu c hc).1, (hu c hc).2.1⟩

/-- Behind the brace that closes a body. -/
theorem Sealed.splitClose (hu : Sealed u) (s : List Char) :
    splitClose 0 (u ++ '}' :: s) = (u, '}' :: s) := by
  have hclose : Code.splitClose 0 ('}' :: s) = ([], '}' :: s) := by
    rw [Code.splitClose]
    simp
  rw [hu, hclose, List.append_nil]

/-- A body with its braces is sealed. -/
theorem Sealed.braces (hu : Sealed u) : Sealed ('{' :: (u ++ ['}'])) := by
  intro depth s
  -- one level down at the brace that opens, and back at the one that closes
  have hclose : Code.splitClose (depth + 1) ('}' :: s) =
      ('}' :: (Code.splitClose depth s).1, (Code.splitClose depth s).2) := by
    rw [Code.splitClose]
    simp
  have hopen : Code.splitClose depth ('{' :: (u ++ '}' :: s)) =
      ('{' :: (Code.splitClose (depth + 1) (u ++ '}' :: s)).1,
        (Code.splitClose (depth + 1) (u ++ '}' :: s)).2) := by
    rw [Code.splitClose]
    simp
  rw [show '{' :: (u ++ ['}']) ++ s = '{' :: (u ++ '}' :: s) from by simp, hopen, hu, hclose]
  simp

/-! ## Sources are sealed -/

theorem plain_of_isWord (hw : IsWord w) : Plain w := by
  intro c hc
  have hword := hw.2 c hc
  refine ⟨?_, ?_, ?_⟩ <;> rintro rfl <;> exact absurd hword (by decide)

theorem plain_of_blank (hu : ∀ c ∈ u, isBlank c = true) : Plain u := by
  intro c hc
  have hblank := hu c hc
  refine ⟨?_, ?_, ?_⟩ <;> rintro rfl <;> exact absurd hblank (by decide)

theorem plain_of_madeOf (hu : MadeOf typeMarks u) : Plain u := by
  intro c hc
  have havoids := hu.avoids ['{', '}', ';'] (by decide) (by decide) c hc
  simpa only [List.mem_cons, List.not_mem_nil, or_false, not_or] using havoids

theorem plain_tailChars {h : Heading} (hh : h.WellFormed) : Plain h.tailChars := by
  intro c hc
  rcases List.mem_append.mp hc with hc | hc
  · unfold Heading.baseChars at hc
    split at hc
    · exact absurd hc (by simp)
    · simp only [List.mem_cons] at hc
      rcases hc with rfl | rfl | rfl | hc
      · decide
      · decide
      · decide
      · exact plain_of_madeOf (madeOf_types fun b hb => (hh.bases b hb).spelled) c hc
  · exact plain_of_blank hh.gap c hc

theorem Plain.append (hu : Plain u) (hv : Plain v) : Plain (u ++ v) := by
  intro c hc
  rcases List.mem_append.mp hc with hc | hc
  · exact hu c hc
  · exact hv c hc

theorem Plain.cons {c : Char} (hc : c ≠ '{' ∧ c ≠ '}' ∧ c ≠ ';') (hu : Plain u) :
    Plain (c :: u) := by
  intro d hd
  rcases List.mem_cons.mp hd with rfl | hd
  · exact hc
  · exact hu d hd

/-- A block without blocks in it. -/
theorem sealed_block (hu : ∀ c ∈ u, c ≠ '{' ∧ c ≠ '}') (hv : ∀ c ∈ v, c ≠ '{' ∧ c ≠ '}') :
    Sealed (u ++ '{' :: (v ++ ['}'])) :=
  (sealed_of_no_brace hu).append (sealed_of_no_brace hv).braces

theorem sealed_methodBody (body : MethodBody) : Sealed body.chars := by
  cases body with
  | empty => exact sealed_block (u := [' ']) (v := [' ']) (by decide) (by decide)
  | stub =>
    exact sealed_block (u := "\n    ".toList) (v := "\n        // Method body\n    ".toList)
      (by decide +kernel) (by decide +kernel)
  | missing => exact sealed_of_no_brace (by decide +kernel)

theorem sealed_form {m : SourceMember} (hm : m.WellFormed) : Sealed m.form.chars := by
  cases hform : m.form with
  | property =>
    exact sealed_block (u := [' ']) (v := " get; set; ".toList) (by decide) (by decide +kernel)
  | method ps body =>
    have hlist : Plain (listed (ps.map Parameter.chars)) :=
      plain_of_madeOf (madeOf_parameters fun p hp => hm.parameters p (by rw [hform]; exact hp))
    have hopen : Plain ('(' :: listed (ps.map Parameter.chars)) := hlist.cons (by decide)
    have hclose : Sealed (')' :: body.chars) :=
      (sealed_of_no_brace (u := [')']) (by decide)).append (sealed_methodBody body)
    exact hopen.sealed.append hclose

theorem sealed_member {m : SourceMember} (hm : m.WellFormed) : Sealed m.chars := by
  have hname : Plain (m.type.chars ++ ' ' :: m.name.toList) :=
    (plain_of_madeOf (madeOf_typeRef hm.type)).append ((plain_of_isWord hm.name).cons (by decide))
  have hhead :
      Plain (m.lead ++ (m.access.toList ++ ' ' :: (m.type.chars ++ ' ' :: m.name.toList))) :=
    (plain_of_blank hm.lead).append
      ((plain_of_isWord (isWord_accessWords _ hm.access)).append (hname.cons (by decide)))
  have happend := hhead.sealed.append (sealed_form hm)
  simpa [SourceMember.chars, SourceMember.bareChars] using happend

theorem sealed_heading {h : Heading} (hh : h.WellFormed) : Sealed (h.lead ++ h.bareChars) := by
  have hpublic : Plain "public".toList := plain_of_isWord (by decide +kernel)
  have hsort : Plain h.sort.word := by
    cases h.sort <;> exact plain_of_isWord (by decide +kernel)
  have hname : Plain (h.name.toList ++ h.tailChars) :=
    (plain_of_isWord hh.name).append (plain_tailChars hh)
  have hkeyword : Plain (h.sort.word ++ ' ' :: (h.name.toList ++ h.tailChars)) :=
    hsort.append (hname.cons (by decide))
  exact ((plain_of_blank hh.lead).append (hpublic.append (hkeyword.cons (by decide)))).sealed

theorem sealed_source {s : Source} (hs : s.WellFormed) : Sealed s.chars := by
  induction s with
  | nil => exact sealed_nil
  | member m rest ih => exact (sealed_member hs.1).append (ih hs.2)
  | type h inner rest ihInner ihRest =>
    obtain ⟨hh, hinner, hrest⟩ := hs
    -- the induction hypothesis for the nested source is what makes its body sealed
    have hbody : Sealed (inner.chars ++ h.close) :=
      (ihInner hinner).append (plain_of_blank hh.close).sealed
    have htype := ((sealed_heading hh).append hbody.braces).append (ihRest hrest)
    simpa [Source.chars] using htype

/-- A body ends at the closing brace of its type. -/
theorem splitClose_body {h : Heading} {inner : Source} (hh : h.WellFormed)
    (hinner : inner.WellFormed) (rest : List Char) :
    splitClose 0 (inner.chars ++ (h.close ++ '}' :: rest)) =
      (inner.chars ++ h.close, '}' :: rest) := by
  have hbody : Sealed (inner.chars ++ h.close) :=
    (sealed_source hinner).append (plain_of_blank hh.close).sealed
  rw [← List.append_assoc, hbody.splitClose]

end ClassAtlas.Code
