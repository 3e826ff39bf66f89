import ClassAtlas.Proofs.Code.MemberPlaces
import ClassAtlas.Proofs.Code.Nested

/-!
# The members of a body

Properties and methods are looked for separately. A search finds every member of its own form at the
access word that declares it, passes over the members of the other form, and finds nothing in the
names, types and parameters of either.
-/

namespace ClassAtlas.Code

open Text

variable {tail : List Char → Option (List Char)} {before : Option Char} {s w rest : List Char}

/-! ## Reading a declaration -/

theorem typeArguments_append {u : List Char}
    (hu : ∀ c ∈ u, c ∉ ['<', '>', '(', ')', '{', '}', ';']) (s : List Char) :
    typeArguments false (u ++ '>' :: s) = some (u ++ ['>'], s) := by
  induction u with
  | nil =>
    rw [List.nil_append, typeArguments]
    simp
  | cons c u ih =>
    have hc := hu c (by simp)
    simp only [List.mem_cons, List.not_mem_nil, or_false, not_or] at hc
    obtain ⟨h1, h2, h3⟩ := hc
    rw [List.cons_append, typeArguments]
    simp only [h2, false_and, if_false, Bool.false_eq_true, and_false, List.mem_cons,
      List.not_mem_nil, or_false, h3, h1]
    rw [ih fun d hd => hu d (List.mem_cons_of_mem _ hd)]
    rfl

/-- A type is read to its end. -/
theorem typeName_typeRef {t : TypeRef} (ht : t.Spelled) (s : List Char) :
    typeName (t.chars ++ ' ' :: s) = some (t.chars, ' ' :: s) := by
  by_cases hnil : t.arguments = []
  · have hchars : t.chars = t.name.toList := by
      simp [TypeRef.chars, TypeRef.argumentChars, hnil]
    rw [hchars]
    exact typeName_word ht.name (by decide) s
  · -- with arguments, the path ends at the angle bracket, and a blank ends the type
    have hchars : t.chars ++ ' ' :: s = t.name.toList ++
        '<' :: (listed (t.arguments.map String.toList) ++ '>' :: ' ' :: s) := by
      simp [TypeRef.chars, TypeRef.argumentChars, hnil]
    have hrun : run (fun d => isWord d || d == '.') (t.name.toList ++
        '<' :: (listed (t.arguments.map String.toList) ++ '>' :: ' ' :: s)) =
        some (t.name.toList, '<' :: (listed (t.arguments.map String.toList) ++ '>' :: ' ' :: s)) :=
      run_append ht.name.1 (fun d hd => by simp [ht.name.2 d hd]) (by rfl)
    have hlist : ∀ c ∈ listed (t.arguments.map String.toList),
        c ∉ ['<', '>', '(', ')', '{', '}', ';'] :=
      (madeOf_arguments ht).avoids _ (by decide) (by decide)
    have harguments : optionalArguments
        ('<' :: (listed (t.arguments.map String.toList) ++ '>' :: ' ' :: s)) =
        (t.argumentChars, ' ' :: s) := by
      unfold optionalArguments TypeRef.argumentChars
      simp only [typeArguments_append hlist, Option.map_some, Option.getD_some, if_neg hnil]
    have hsquares : arrayMarks (' ' :: s) = ([], ' ' :: s) := rfl
    have hmark : optionalMark (' ' :: s) = ([], ' ' :: s) := rfl
    rw [hchars]
    unfold typeName
    simp only [hrun, Option.bind_eq_bind, Option.bind_some, harguments, hsquares, hmark,
      List.append_nil]
    rfl

/-- A type and a name are read, and the tail decides. -/
theorem typeAndName_declaration {t : TypeRef} (ht : t.Spelled) (hw : IsWord w) (hs : WordEnds s) :
    typeAndName tail (t.chars ++ ' ' :: (w ++ s)) =
      (tail (trimStart s)).map fun r => ((t.chars, w), r) := by
  unfold typeAndName
  simp only [typeName_typeRef ht, Option.bind_eq_bind, Option.bind_some,
    gap_space (hw.blanksEnd s), word_append hw hs]
  cases tail (trimStart s) <;> rfl

theorem oneOf_accessWords (hw : w ∈ accessWords) (s : List Char) :
    oneOf accessWords (w ++ ' ' :: s) = some (w, ' ' :: s) := by
  simp only [accessWords, spelled, List.map_cons, List.map_nil, List.mem_cons, List.not_mem_nil,
    or_false] at hw
  rcases hw with rfl | rfl | rfl | rfl <;> rfl

variable {m : SourceMember}

/-- The declaration of a member as it is read. -/
def SourceMember.declaration (m : SourceMember) : MemberDeclaration :=
  ⟨m.access, String.ofList m.type.chars, m.name⟩

/-- Behind the access word of a member stand its type and its name. -/
theorem findSome?_typePlaces (hm : m.WellFormed) (hs : WordEnds s) :
    (typePlaces (' ' :: (m.type.chars ++ ' ' :: (m.name.toList ++ s)))).findSome?
        (typeAndName tail) =
      (tail (trimStart s)).map fun r => ((m.type.chars, m.name.toList), r) := by
  have hsecond : ∀ w ∈ secondAccessWords, w ∈ accessWords := by decide +kernel
  -- no keyword stands before the type, so there is one place for it
  have hplaces : typePlaces (' ' :: (m.type.chars ++ ' ' :: (m.name.toList ++ s))) =
      [m.type.chars ++ ' ' :: (m.name.toList ++ s)] := by
    have hends : WordEnds (m.type.argumentChars ++ ' ' :: (m.name.toList ++ s)) := by
      rcases argumentChars_follows m.type (' ' :: (m.name.toList ++ s)) with hnil | hmark
      · rw [hnil]
        exact wordEnds_space _
      · exact hmark.1
    rw [TypeRef.chars, List.append_assoc]
    exact typePlaces_word_only hm.type.name hends
      (Or.inl ⟨fun h => hm.notAccess (hsecond _ h), hm.notModifier⟩)
  rw [hplaces, List.findSome?_cons, typeAndName_declaration hm.type hm.name hs]
  cases tail (trimStart s) <;> rfl

/-- A member is read as far as the tail goes. -/
theorem member_declaration (tail : List Char → Option (List Char)) (before : Option Char)
    (hm : m.WellFormed) (hs : WordEnds s) :
    member tail before (m.access.toList ++ ' ' :: (m.type.chars ++ ' ' :: (m.name.toList ++ s))) =
      (tail (trimStart s)).map fun r => (m.declaration, r) := by
  unfold member
  simp only [oneOf_accessWords hm.access, Option.bind_eq_bind, Option.bind_some,
    findSome?_typePlaces hm hs]
  cases tail (trimStart s) with
  | none => rfl
  | some r => simp [SourceMember.declaration]

/-! ## Where no member is found -/

theorem nowhere_member_arguments {t : TypeRef} (ht : t.Spelled) :
    Nowhere (Matches (member tail)) before t.argumentChars rest := by
  unfold TypeRef.argumentChars
  split
  · trivial
  · refine (nowhere_mark wordy_member (by decide)).mpr (Nowhere.append ?_ ?_)
    · refine nowhere_listed wordy_member (F := fun s => WordEnds s ∧ BlanksEnd s) ?_
        (fun s => ⟨by rfl, by rfl⟩) ⟨by rfl, by rfl⟩
      intro p hp b r hr
      obtain ⟨a, ha, rfl⟩ := List.mem_map.mp hp
      exact nowhere_member_word (ht.arguments a ha).2 hr.1 (refuses_of_ends hr.2)
    · exact nowhere_marks wordy_member (by decide)

theorem nowhere_member_typeRef {t : TypeRef} (ht : t.Spelled)
    (href : Refuses tail (' ' :: rest)) :
    Nowhere (Matches (member tail)) before t.chars (' ' :: rest) := by
  refine Nowhere.append ?_ (nowhere_member_arguments ht)
  unfold TypeRef.argumentChars
  split
  · exact nowhere_member_word ht.name.2 (wordEnds_space _) href
  · exact nowhere_member_word ht.name.2 (by rfl) (refuses_of_ends (by rfl))

theorem nowhere_member_parameter {p : Parameter} (hp : p.WellFormed) {c : Char}
    (hc : EndsType c) (hb : isBlank c = false) (s : List Char) :
    Nowhere (Matches (member tail)) before p.chars (c :: s) := by
  refine Nowhere.append (nowhere_member_typeRef hp.type (refuses_word_mark hp.name hc hb s)) ?_
  exact (nowhere_mark wordy_member (by decide)).mpr
    (nowhere_member_word hp.name.2 hc.1 (refuses_of_ends hb))

theorem nowhere_member_text (hs : ∀ w ∈ accessWords, ¬ w <:+: s)
    (hend : (lastOf none s).any isWord = false) :
    Nowhere (Matches (member tail)) before s rest := by
  refine nowhere_of_absent ?_ isWord_accessWords hs (Or.inl hend)
  intro b r h
  obtain ⟨w, hw, t, heq, _⟩ := of_member h
  exact ⟨w, hw, t, heq⟩

theorem nowhere_member_body (body : MethodBody) :
    Nowhere (Matches (member tail)) before body.chars rest := by
  cases body <;> exact nowhere_member_text (by decide +kernel) (by decide +kernel)

/-- What follows the name of a member. -/
theorem nowhere_member_form (hm : m.WellFormed) :
    Nowhere (Matches (member tail)) before m.form.chars rest := by
  cases hform : m.form with
  | property => exact nowhere_member_text (by decide +kernel) (by decide +kernel)
  | method ps body =>
    refine (nowhere_mark wordy_member (by decide)).mpr (Nowhere.append ?_ ?_)
    · refine nowhere_listed wordy_member
        (F := fun s => ∃ c r, s = c :: r ∧ EndsType c ∧ isBlank c = false) ?_
        (fun s => ⟨',', s, rfl, by decide, by decide⟩) ⟨')', _, rfl, by decide, by decide⟩
      intro q hq b r hr
      obtain ⟨p, hp, rfl⟩ := List.mem_map.mp hq
      obtain ⟨c, s, rfl, hc, hb⟩ := hr
      exact nowhere_member_parameter (hm.parameters p (by rw [hform]; exact hp)) hc hb s
    · exact (nowhere_mark wordy_member (by decide)).mpr (nowhere_member_body body)

theorem wordEnds_form (form : MemberForm) (s : List Char) : WordEnds (form.chars ++ s) :=
  (form_markFollows form s).1

/-- No member is found in a member whose form the tail does not read. -/
theorem nowhere_member (hm : m.WellFormed)
    (hnone : tail (trimStart (m.form.chars ++ rest)) = none) :
    Nowhere (Matches (member tail)) before m.bareChars rest := by
  have haccess : Refuses tail (' ' :: (m.type.chars ++ ' ' :: (m.name.toList ++
      (m.form.chars ++ rest)))) := by
    rw [Refuses, findSome?_typePlaces hm (wordEnds_form m.form rest), hnone]
    rfl
  have htype : Refuses tail (' ' :: (m.name.toList ++ (m.form.chars ++ rest))) := by
    cases m.form with
    | property => exact refuses_word_space_mark hm.name (by decide) (by decide) (by decide) _
    | method ps body => exact refuses_word_mark hm.name (by decide) (by decide) _
  have hname : Refuses tail (m.form.chars ++ rest) := by
    cases m.form with
    | property => exact refuses_mark (by decide) (by decide) (by decide) _
    | method ps body => exact refuses_of_ends (by rfl)
  unfold SourceMember.bareChars
  refine Nowhere.append (nowhere_member_word (isWord_accessWords _ hm.access).2
    (wordEnds_space _) ?_) ((nowhere_mark wordy_member (by decide)).mpr (Nowhere.append ?_ ?_))
  · simpa using haccess
  · simpa using nowhere_member_typeRef hm.type htype
  · refine (nowhere_mark wordy_member (by decide)).mpr
      (Nowhere.append ?_ (nowhere_member_form hm))
    exact nowhere_member_word hm.name.2 (wordEnds_form m.form rest) hname

/-! ## All members of a body -/

/-- A tail reads the forms of one sort, and what it leaves of them holds no member. -/
structure ReadsForms (tail : List Char → Option (List Char)) (fits : MemberForm → Bool) :
    Prop where
  found : ∀ m : SourceMember, m.WellFormed → fits m.form = true → ∃ done left,
    m.form.chars = done ++ left ∧ (∀ r, tail (trimStart (done ++ (left ++ r))) = some (left ++ r)) ∧
      ∀ b r, Nowhere (Matches (member tail)) b left r
  other : ∀ form, fits form = false → ∀ r, tail (trimStart (form.chars ++ r)) = none

variable {fits : MemberForm → Bool}

/-- A member adds its declaration if its form is of the sort that is read, and nothing else. -/
theorem occurrences_bareChars (htail : ReadsForms tail fits) (hm : m.WellFormed) :
    occurrencesFrom (member tail) before (m.bareChars ++ rest) =
      (if fits m.form = true then [m.declaration] else []) ++
        occurrencesFrom (member tail) (lastOf before m.bareChars) rest := by
  by_cases hfits : fits m.form = true
  · -- the reader takes part of the form, and what it leaves holds no member
    obtain ⟨done, left, hform, hread, hleft⟩ := htail.found m hm hfits
    have hends := wordEnds_form m.form rest
    rw [hform, List.append_assoc] at hends
    have hbare : m.bareChars =
        (m.access.toList ++ ' ' :: (m.type.chars ++ ' ' :: (m.name.toList ++ done))) ++ left := by
      rw [SourceMember.bareChars, hform]
      simp only [List.append_assoc, List.cons_append]
    have hfound : member tail before
        ((m.access.toList ++ ' ' :: (m.type.chars ++ ' ' :: (m.name.toList ++ done))) ++
          (left ++ rest)) = some (m.declaration, left ++ rest) := by
      have hdeclaration := member_declaration tail before hm hends
      rw [hread, Option.map_some] at hdeclaration
      simpa only [List.append_assoc, List.cons_append] using hdeclaration
    rw [if_pos hfits, hbare, lastOf_append, List.append_assoc,
      occurrencesFrom_of_found hfound (by simp), occurrencesFrom_of_nowhere (hleft _ _)]
    rfl
  · -- a form of the other sort is not read at all
    have hother := htail.other _ (eq_false_of_ne_true hfits) rest
    rw [if_neg hfits, occurrencesFrom_of_nowhere (nowhere_member hm hother)]
    rfl

theorem occurrences_ownChars (htail : ReadsForms tail fits) {s : Source} (hs : s.WellFormed) :
    occurrencesFrom (member tail) before (s.ownChars ++ rest) =
      (s.members.filter fun m => fits m.form).map SourceMember.declaration ++
        occurrencesFrom (member tail) (lastOf before s.ownChars) rest := by
  have hlead {u r : List Char} {b : Option Char} (hu : ∀ c ∈ u, isBlank c = true) :
      Nowhere (Matches (member tail)) b u r :=
    nowhere_blanks wordy_member hu
  -- nested types leave blanks, and each member is read or passed over by its form
  induction s generalizing before with
  | nil => rfl
  | type h inner next _ ih =>
    obtain ⟨hh, _, hnext⟩ := hs
    rw [Source.ownChars, List.append_assoc, occurrencesFrom_of_nowhere (hlead hh.lead), ih hnext,
      lastOf_append]
    rfl
  | member m next ih =>
    obtain ⟨hm, hnext⟩ := hs
    rw [Source.ownChars, List.append_assoc, SourceMember.chars, List.append_assoc,
      occurrencesFrom_of_nowhere (hlead hm.lead), occurrences_bareChars htail hm, ih hnext,
      lastOf_append, lastOf_append]
    by_cases hfits : fits m.form = true <;> simp [Source.members, hfits]

/-! ## The two tails -/

theorem readsForms_accessors : ReadsForms accessors MemberForm.isProperty where
  found := by
    intro m _ hfits
    cases hform : m.form with
    | method ps body => rw [hform] at hfits; exact absurd hfits (by simp [MemberForm.isProperty])
    | property =>
      -- the reader is content with the getter
      refine ⟨[' ', '{', ' ', 'g', 'e', 't', ';'], " set; \x7d".toList, by decide +kernel,
        fun r => rfl, ?_⟩
      intro b r
      exact nowhere_member_text (by decide +kernel) (by decide +kernel)
  other := by
    intro form hfits r
    cases form with
    | property => exact absurd hfits (by simp [MemberForm.isProperty])
    | method ps body => rfl

/-- A parameter list is read to its closing bracket. -/
theorem parameters_listed {ps : List Parameter} (hps : ∀ p ∈ ps, p.WellFormed)
    (r : List Char) :
    parameters (trimStart ('(' :: (listed (ps.map Parameter.chars) ++ ')' :: r))) = some r := by
  have hlist : ∀ c ∈ listed (ps.map Parameter.chars), decide (c ≠ ')') = true := by
    intro c hc
    have havoids := (madeOf_parameters hps).avoids [')'] (by decide) (by decide) c hc
    exact decide_eq_true (List.ne_of_not_mem_cons havoids)
  have hdrop := dropWhile_append_of_ends (s := ')' :: r) hlist (by simp)
  have hopen : BlanksEnd ('(' :: (listed (ps.map Parameter.chars) ++ ')' :: r)) := by rfl
  rw [trimStart_of_ends hopen]
  unfold parameters
  simp only [literal, if_true, Option.bind_eq_bind, Option.bind_some, hdrop]

theorem readsForms_parameters : ReadsForms parameters fun form => !form.isProperty where
  found := by
    intro m hm hfits
    cases hform : m.form with
    | property => rw [hform] at hfits; exact absurd hfits (by simp [MemberForm.isProperty])
    | method ps body =>
      have hchars : (MemberForm.method ps body).chars =
          ('(' :: (listed (ps.map Parameter.chars) ++ [')'])) ++ body.chars := by
        show '(' :: (listed (ps.map Parameter.chars) ++ ')' :: body.chars) = _
        simp only [List.cons_append, List.append_assoc, List.nil_append]
      have hps : ∀ p ∈ ps, p.WellFormed := by
        intro p hp
        refine hm.parameters p ?_
        rw [hform]
        exact hp
      refine ⟨_, body.chars, hchars, ?_, fun b r => nowhere_member_body body⟩
      intro r
      simp only [List.cons_append, List.append_assoc, List.nil_append]
      exact parameters_listed hps _
  other := by
    intro form hfits r
    cases form with
    | property => rfl
    | method ps body => exact absurd hfits (by simp [MemberForm.isProperty])

/-- The members that are read from a body are the ones that stand in it. -/
theorem declaredMembers_body {h : Heading} {inner : Source} (hh : h.WellFormed)
    (hinner : inner.WellFormed) : declaredMembers (inner.chars ++ h.close) = inner.lines := by
  -- both readers, of properties and of methods, go through the same body
  have hfound {tail : List Char → Option (List Char)} {fits : MemberForm → Bool}
      (htail : ReadsForms tail fits) :
      (occurrences (member tail) (inner.ownChars ++ h.close)).map (·.line) =
        (inner.members.filter fun m => fits m.form).map SourceMember.line := by
    have hclose : Nowhere (Matches (member tail)) (lastOf none inner.ownChars) h.close [] :=
      nowhere_blanks wordy_member hh.close
    rw [show occurrences (member tail) (inner.ownChars ++ h.close) =
      occurrencesFrom (member tail) none (inner.ownChars ++ h.close) from rfl,
      occurrences_ownChars htail hinner, occurrencesFrom_eq_nil hclose, List.append_nil,
      List.map_map]
    rfl
  unfold declaredMembers Source.lines
  rw [withoutNested_body hh hinner]
  dsimp only
  rw [hfound readsForms_accessors, hfound readsForms_parameters]

end ClassAtlas.Code
