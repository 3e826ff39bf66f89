import ClassAtlas.Proofs.Code.Rows
import ClassAtlas.Proofs.Code.Source
import ClassAtlas.Proofs.Text.Keywords

/-!
# Where no declaration begins

A keyword declares a type only if another word follows it after blanks. In a source this happens
behind the access word of a type and nowhere else: all other words are no keywords, or a mark
follows them. So members, base lists and bodies of methods are silent, whatever their names.
-/

namespace ClassAtlas.Code

open Text

variable {words : List (List Char)} {before : Option Char} {u w rest : List Char}

theorem isWord_nestedTypeWords : ∀ w ∈ nestedTypeWords, IsWord w := by decide +kernel

theorem isWord_typeWords : ∀ w ∈ typeWords, IsWord w := by decide +kernel

theorem isWord_accessWords : ∀ w ∈ accessWords, IsWord w := by decide +kernel

theorem prefixFree_nestedTypeWords : PrefixFree nestedTypeWords := by decide +kernel

theorem prefixFree_typeWords : PrefixFree typeWords := by decide +kernel

theorem typeWords_subset : ∀ w ∈ typeWords, w ∈ nestedTypeWords := by decide +kernel

/-! ## Words that nothing follows -/

/-- The text goes on with a mark, perhaps behind blanks. -/
def MarkFollows (s : List Char) : Prop := WordEnds s ∧ wordFollows s = false

theorem markFollows_cons {c : Char} (hc : isWord c = false) (hb : isBlank c = false)
    (s : List Char) : MarkFollows (c :: s) :=
  ⟨hc, by simp [wordFollows, hb]⟩

theorem markFollows_append {g : List Char} (hg : ∀ d ∈ g, isBlank d = true) {c : Char}
    (hc : isWord c = false) (hb : isBlank c = false) (s : List Char) :
    MarkFollows (g ++ c :: s) := by
  refine ⟨?_, ?_⟩
  · exact wordEnds_blanks_append hg (wordEnds_cons.mpr hc)
  · unfold wordFollows
    rw [trimStart_append hg, trimStart_of_ends (blanksEnd_cons.mpr hb)]
    simp [hc]

/-- A property holds nowhere in a list if it holds nowhere in the parts, whether a comma follows or
what stands behind the list. -/
theorem nowhere_listed {P : PlaceProp} (hP : Wordy P) {parts : List (List Char)}
    {F : List Char → Prop} (hparts : ∀ p ∈ parts, ∀ b r, F r → Nowhere P b p r)
    (hcomma : ∀ s, F (',' :: s)) (hrest : F rest) : Nowhere P before (listed parts) rest := by
  cases parts with
  | nil => trivial
  | cons p ps =>
    have htail : ∀ (ps : List (List Char)) (b : Option Char),
        (∀ q ∈ ps, ∀ b r, F r → Nowhere P b q r) →
        Nowhere P b (ps.flatMap fun q => ',' :: ' ' :: q) rest ∧
          F ((ps.flatMap fun q => ',' :: ' ' :: q) ++ rest) := by
      intro ps
      induction ps with
      | nil => exact fun b _ => ⟨trivial, hrest⟩
      | cons q ps ih =>
        intro b hq
        -- a comma follows the part, or what stands behind the list
        obtain ⟨hnowhere, hfollows⟩ :=
          ih (lastOf (some ' ') q) fun r hr => hq r (List.mem_cons_of_mem _ hr)
        refine ⟨?_, hcomma _⟩
        rw [List.flatMap_cons, List.cons_append, List.cons_append]
        refine (nowhere_mark hP (by decide)).mpr ((nowhere_mark hP (by decide)).mpr ?_)
        exact Nowhere.append (hq q (by simp) _ _ hfollows) hnowhere
    obtain ⟨hnowhere, hfollows⟩ :=
      htail ps (lastOf before p) fun q hq => hparts q (List.mem_cons_of_mem _ hq)
    exact Nowhere.append (hparts p (by simp) _ _ hfollows) hnowhere

/-- The end of a type's name: type arguments follow or the text behind the type. -/
theorem argumentChars_follows (t : TypeRef) (s : List Char) :
    t.argumentChars = [] ∨ MarkFollows (t.argumentChars ++ s) := by
  unfold TypeRef.argumentChars
  by_cases h : t.arguments = []
  · exact Or.inl (if_pos h)
  · rw [if_neg h]
    exact Or.inr (markFollows_cons (by decide) (by decide) _)

section

variable (hwords : ∀ w ∈ words, IsWord w)

include hwords

theorem silent_before_mark (hw : IsWord w) (h : MarkFollows rest) : Silent words before w rest :=
  silent_last hwords hw h.1 h.2

theorem silent_blanks (hu : ∀ c ∈ u, isBlank c = true) : Silent words before u rest :=
  nowhere_blanks (lexical_heads hwords).wordy hu

/-! ## Types as they are written -/

theorem silent_argumentChars {t : TypeRef} (ht : t.Spelled) :
    Silent words before t.argumentChars rest := by
  unfold TypeRef.argumentChars
  split
  · trivial
  · refine (silent_mark hwords (by decide)).mpr (Nowhere.append ?_ ?_)
    · refine nowhere_listed (lexical_heads hwords).wordy (F := MarkFollows) ?_
        (fun s => markFollows_cons (by decide) (by decide) s)
        (markFollows_cons (by decide) (by decide) _)
      intro p hp b r hr
      obtain ⟨a, ha, rfl⟩ := List.mem_map.mp hp
      exact silent_before_mark hwords (ht.arguments a ha) hr
    · exact silent_marks hwords (by decide)

/-- A type is silent before a mark. -/
theorem silent_typeRef_before_mark {t : TypeRef} (ht : t.Spelled) (h : MarkFollows rest) :
    Silent words before t.chars rest := by
  refine Nowhere.append ?_ (silent_argumentChars hwords ht)
  rcases argumentChars_follows t rest with hnil | hmark
  · rw [hnil]
    exact silent_before_mark hwords ht.name h
  · exact silent_before_mark hwords ht.name hmark

/-- A type is silent before a name if its own name is no keyword. -/
theorem silent_typeRef {t : TypeRef} (ht : t.Spelled) (hnot : t.name.toList ∉ words)
    (h : WordEnds rest) : Silent words before t.chars rest := by
  refine Nowhere.append (silent_word hwords ht.name hnot ?_) (silent_argumentChars hwords ht)
  rcases argumentChars_follows t rest with hnil | hmark
  · rw [hnil]
    exact h
  · exact hmark.1

/-- A base list is silent, and so are the blanks behind it. -/
theorem silent_tailChars {h : Heading} (hh : h.WellFormed) :
    Silent words before h.tailChars ('{' :: rest) := by
  unfold Heading.tailChars Heading.baseChars
  refine Nowhere.append ?_ (silent_blanks hwords hh.gap)
  split
  · trivial
  · refine (silent_mark hwords (by decide)).mpr ?_
    refine (silent_mark hwords (by decide)).mpr ((silent_mark hwords (by decide)).mpr ?_)
    refine nowhere_listed (lexical_heads hwords).wordy (F := MarkFollows) ?_
      (fun s => markFollows_cons (by decide) (by decide) s)
      (markFollows_append hh.gap (by decide) (by decide) _)
    intro p hp b r hr
    obtain ⟨t, ht, rfl⟩ := List.mem_map.mp hp
    exact silent_typeRef_before_mark hwords (hh.bases t ht).spelled hr

end

/-! ## Members -/

theorem silent_parameter {p : Parameter} (hp : p.WellFormed) (h : MarkFollows rest) :
    Silent nestedTypeWords before p.chars rest := by
  refine Nowhere.append (silent_typeRef isWord_nestedTypeWords hp.type hp.notType ?_) ?_
  · exact (by decide : isWord ' ' = false)
  · exact (silent_mark isWord_nestedTypeWords (by decide)).mpr
      (silent_before_mark isWord_nestedTypeWords hp.name h)

theorem silent_methodBody (body : MethodBody) :
    Silent nestedTypeWords before body.chars rest := by
  cases body with
  | empty => exact silent_marks isWord_nestedTypeWords (by decide +kernel)
  | stub =>
    exact silent_of_absent isWord_nestedTypeWords (by decide +kernel) (Or.inl (by decide +kernel))
  | missing => exact silent_marks isWord_nestedTypeWords (by decide +kernel)

variable {m : SourceMember}

theorem silent_form (hm : m.WellFormed) : Silent nestedTypeWords before m.form.chars rest := by
  cases hform : m.form with
  | property =>
    exact silent_of_absent isWord_nestedTypeWords (by decide +kernel) (Or.inl (by decide +kernel))
  | method ps body =>
    refine (silent_mark isWord_nestedTypeWords (by decide)).mpr (Nowhere.append ?_ ?_)
    · refine nowhere_listed (lexical_heads isWord_nestedTypeWords).wordy (F := MarkFollows) ?_
        (fun s => markFollows_cons (by decide) (by decide) s)
        (markFollows_cons (by decide) (by decide) _)
      intro q hq b r hr
      obtain ⟨p, hp, rfl⟩ := List.mem_map.mp hq
      exact silent_parameter (hm.parameters p (by rw [hform]; exact hp)) hr
    · exact (silent_mark isWord_nestedTypeWords (by decide)).mpr (silent_methodBody body)

/-- A mark stands behind the name of a member. -/
theorem form_markFollows (form : MemberForm) (s : List Char) : MarkFollows (form.chars ++ s) := by
  cases form with
  | property => exact ⟨by rfl, by rfl⟩
  | method ps body => exact markFollows_cons (by decide) (by decide) _

/-- No type is declared in a member. -/
theorem silent_member (hm : m.WellFormed) : Silent nestedTypeWords before m.bareChars rest := by
  have hword := isWord_nestedTypeWords
  have haccess : ∀ w ∈ accessWords, w ∉ nestedTypeWords := by decide +kernel
  unfold SourceMember.bareChars
  refine Nowhere.append (silent_word hword (isWord_accessWords _ hm.access)
    (haccess _ hm.access) ?_) ((silent_mark hword (by decide)).mpr (Nowhere.append ?_ ?_))
  · exact (by decide : isWord ' ' = false)
  · exact silent_typeRef hword hm.type hm.notType (by decide : isWord ' ' = false)
  · refine (silent_mark hword (by decide)).mpr (Nowhere.append ?_ (silent_form hm))
    exact silent_before_mark hword hm.name (form_markFollows m.form rest)

end ClassAtlas.Code
