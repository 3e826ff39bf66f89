import ClassAtlas.Proofs.Code.MemberRows

/-!
# Bodies of properties

The simplest bodies: properties with a word for their type, and blanks between them. Any words will
do for the type, modifiers included, but not one that declares a type. Such a body is read to the
last property, no method is found in it, and no type begins in it.
-/

namespace ClassAtlas.Code

open Text

variable {before : Option Char} {rest : List Char}

/-- A property that can be read and written, with a word for its type. -/
structure AutoProperty where
  lead : List Char
  type : String
  name : String
  isBlank_lead : ∀ c ∈ lead, isBlank c = true
  isWord_type : IsWord type.toList
  isWord_name : IsWord name.toList
  notType : type.toList ∉ nestedTypeWords

namespace AutoProperty

/-- The text up to the accessors. -/
def head (q : AutoProperty) : List Char :=
  "public".toList ++ ([' '] ++ (q.type.toList ++ ([' '] ++ (q.name.toList ++ [' ']))))

def accessorChars : List Char := " get; set; \x7d".toList

def bareChars (q : AutoProperty) : List Char := q.head ++ '{' :: accessorChars

def chars (q : AutoProperty) : List Char := q.lead ++ q.bareChars

/-- The line that shows the property. -/
def line (q : AutoProperty) : String := memberLine (visibilityMark "public") q.name q.type

theorem endsInMark_bareChars (q : AutoProperty) : EndsInMark q.bareChars := by
  have haccessors : EndsInMark accessorChars :=
    ⟨" get; set; ".toList, '}', by decide +kernel, by decide, by decide⟩
  exact (haccessors.cons '{').append q.head

/-! ## No type is declared in it -/

theorem silent_bareChars (q : AutoProperty) : Silent nestedTypeWords before q.bareChars rest := by
  have hwords := isWord_nestedTypeWords
  have hpublic : IsWord "public".toList := by decide +kernel
  have hnot : "public".toList ∉ nestedTypeWords := by decide +kernel
  unfold bareChars head
  refine Nowhere.append (Nowhere.append (silent_word hwords hpublic hnot (by rfl))
    (Nowhere.append (silent_marks hwords (by decide)) (Nowhere.append
      (silent_word hwords q.isWord_type q.notType (by rfl)) (Nowhere.append
        (silent_marks hwords (by decide)) (Nowhere.append
          (silent_before_mark hwords q.isWord_name ⟨by rfl, by rfl⟩)
          (silent_marks hwords (by decide)))))))
    ((silent_mark hwords (by decide)).mpr ?_)
  exact silent_of_absent hwords (by decide +kernel) (.inl (by decide +kernel))

theorem silent_chars (q : AutoProperty) : Silent typeWords before q.chars rest :=
  Nowhere.append (silent_blanks isWord_typeWords q.isBlank_lead)
    (q.silent_bareChars.mono typeWords_subset)

theorem nowhere_nestedType_chars (q : AutoProperty) :
    Nowhere (Matches nestedType) before q.chars rest := by
  obtain ⟨u, c, hu, hc, hb⟩ := q.endsInMark_bareChars
  have hsilent : Silent nestedTypeWords (lastOf before q.lead) q.bareChars rest :=
    q.silent_bareChars
  refine Nowhere.append (nowhere_blanks wordy_nestedType q.isBlank_lead) ?_
  rw [hu] at hsilent ⊢
  exact nowhere_nestedType hsilent hc hb

theorem plain_head (q : AutoProperty) : Plain q.head := by
  have hpublic : Plain "public".toList := plain_of_isWord (by decide +kernel)
  exact hpublic.append (Plain.append (by decide) ((plain_of_isWord q.isWord_type).append
    (Plain.append (by decide) ((plain_of_isWord q.isWord_name).append (by decide)))))

theorem sealed_chars (q : AutoProperty) : Sealed q.chars := by
  have haccessors : Sealed ('{' :: accessorChars) :=
    (sealed_of_no_brace (u := " get; set; ".toList) (by decide +kernel)).braces
  exact (plain_of_blank q.isBlank_lead).sealed.append (q.plain_head.sealed.append haccessors)

/-! ## What is read from it -/

theorem nowhere_member_accessors {tail : List Char → Option (List Char)} :
    Nowhere (Matches (member tail)) before accessorChars rest :=
  nowhere_member_text (by decide +kernel) (by decide +kernel)

/-- No method begins in a property: its first bracket is the one of its accessors. -/
theorem nowhere_parameters (q : AutoProperty) :
    Nowhere (Matches (member parameters)) before q.chars rest := by
  have hless : Bracketless q.head := by
    have hword {w : List Char} (hw : IsWord w) : Bracketless w := (lettered_word hw).bracketless
    exact (hword (by decide +kernel)).append (Bracketless.append (by decide)
      ((hword q.isWord_type).append (Bracketless.append (by decide)
        ((hword q.isWord_name).append (by decide)))))
  refine Nowhere.append (nowhere_blanks wordy_member q.isBlank_lead) (Nowhere.append ?_
    ((nowhere_mark wordy_member (by decide)).mpr nowhere_member_accessors))
  exact nowhere_member_bracket bracketed_parameters hless (by decide) rfl

/-- A property is read. -/
theorem occurrences_chars (q : AutoProperty) :
    occurrencesFrom (member accessors) before (q.chars ++ rest) =
      ⟨"public", q.type, q.name⟩ :: occurrencesFrom (member accessors) (some '}') rest := by
  have hpublic : "public".toList ∈ accessWords := by decide +kernel
  -- the reader stops before the setter, so the text is cut there
  have hread : member accessors (lastOf before q.lead)
      ("public".toList ++ ([' '] ++ (Row.chars [] ++ (q.type.toList ++ ([' '] ++
        (q.name.toList ++ ([' '] ++ '{' :: (accessorChars ++ rest)))))))) =
      (accessors ('{' :: (accessorChars ++ rest))).map fun r =>
        (⟨String.ofList "public".toList, String.ofList q.type.toList,
          String.ofList q.name.toList⟩, r) :=
    member_reads bracketed_accessors hpublic isGap_space (.modifiers (by simp [Row.Of]))
      q.isWord_type isGap_space q.isWord_name isBlank_space (by decide)
  have haccessors :
      accessors ('{' :: (accessorChars ++ rest)) = some (" set; \x7d".toList ++ rest) := rfl
  rw [haccessors, Option.map_some, String.ofList_toList, String.ofList_toList, String.ofList_toList]
    at hread
  have hsplit : accessorChars = " get;".toList ++ " set; \x7d".toList := by decide +kernel
  have hfound : member accessors (lastOf before q.lead)
      ((q.head ++ '{' :: " get;".toList) ++ (" set; \x7d".toList ++ rest)) =
        some (⟨"public", q.type, q.name⟩, " set; \x7d".toList ++ rest) := by
    rw [← hread, hsplit]
    unfold head
    simp only [Row.chars_nil, List.append_assoc, List.cons_append, List.nil_append]
  have htext : q.chars ++ rest =
      q.lead ++ ((q.head ++ '{' :: " get;".toList) ++ (" set; \x7d".toList ++ rest)) := by
    simp only [chars, bareChars, hsplit, List.append_assoc, List.cons_append]
  -- the rest of the accessors holds no member
  have hbehind {b : Option Char} :
      Nowhere (Matches (member accessors)) b " set; \x7d".toList rest :=
    nowhere_member_text (by decide +kernel) (by decide +kernel)
  rw [htext, occurrencesFrom_of_nowhere (nowhere_blanks wordy_member q.isBlank_lead),
    occurrencesFrom_of_found hfound (by simp), occurrencesFrom_of_nowhere hbehind]
  rfl

end AutoProperty

/-! ## All properties of a body -/

/-- The text of some properties, with blanks behind the last one. -/
def propertyChars (qs : List AutoProperty) (close : List Char) : List Char :=
  qs.flatMap AutoProperty.chars ++ close

section

variable {qs : List AutoProperty} {close : List Char} (hclose : ∀ c ∈ close, isBlank c = true)

include hclose

/-- What holds nowhere in a property and at no blank holds nowhere in a body. -/
theorem nowhere_properties {P : PlaceProp} (hP : Wordy P)
    (h : ∀ (q : AutoProperty) b r, Nowhere P b q.chars r) :
    Nowhere P before (propertyChars qs close) rest := by
  unfold propertyChars
  induction qs generalizing before with
  | nil => exact nowhere_blanks hP hclose
  | cons q qs ih =>
    rw [List.flatMap_cons, List.append_assoc]
    exact Nowhere.append (h q _ _) ih

theorem sealed_properties : Sealed (propertyChars qs close) := by
  unfold propertyChars
  induction qs with
  | nil => exact (plain_of_blank hclose).sealed
  | cons q qs ih =>
    rw [List.flatMap_cons, List.append_assoc]
    exact q.sealed_chars.append ih

theorem occurrences_properties :
    occurrencesFrom (member accessors) before (propertyChars qs close) =
      qs.map fun q => ⟨"public", q.type, q.name⟩ := by
  unfold propertyChars
  induction qs generalizing before with
  | nil =>
    exact occurrencesFrom_eq_nil (nowhere_blanks wordy_member hclose)
  | cons q qs ih =>
    rw [List.flatMap_cons, List.append_assoc, q.occurrences_chars, ih]
    rfl

/-- The members that are read from such a body are its properties. -/
theorem declaredMembers_properties :
    declaredMembers (propertyChars qs close) =
      { attributes := qs.map AutoProperty.line, methods := [] } := by
  -- no type is nested in the body, so all of it is searched
  have hown : withoutNested (propertyChars qs close) = propertyChars qs close :=
    eraseFrom_eq_self
      (nowhere_properties hclose wordy_nestedType fun q _ _ => q.nowhere_nestedType_chars)
  have hmethods : occurrences (member parameters) (propertyChars qs close) = [] :=
    occurrencesFrom_eq_nil
      (nowhere_properties hclose wordy_member fun q _ _ => q.nowhere_parameters)
  have hproperties : occurrences (member accessors) (propertyChars qs close) = _ :=
    occurrences_properties hclose
  unfold declaredMembers
  rw [hown]
  dsimp only
  rw [hmethods, hproperties, List.map_map]
  rfl

end

end ClassAtlas.Code
