import ClassAtlas.Proofs.Code.BlockHeaders
import ClassAtlas.Proofs.Code.OwnMembers

/-!
# Headers of nested types

A nested type is found by its header: modifiers, the keyword of a type of any sort, a name, and what
stands between the name and the next brace. The reader skips modifiers as long as there are any and
then goes back over them to find the keyword. It never has to, because no modifier is a keyword, so
it finds a nested type exactly where a header stands, whatever modifiers the header begins with.

A header holds one brace, its last character.
-/

namespace ClassAtlas.Code

open Text

variable {before : Option Char} {s r : List Char} {ks : Row}

/-! ## Headers -/

/-- A header of a nested type in a text: modifiers, each with the blanks behind it, the keyword,
blanks, the name, what stands between the name and the opening brace, and behind the brace the rest
of the text. Between the name and the brace no type is headed, no brace is closed and no statement
ends. -/
structure NestedHeader where
  modifiers : Row
  keyword : List Char
  gap : List Char
  name : List Char
  between : List Char
  rest : List Char
  areModifiers : modifiers.Of typeModifiers
  isKeyword : keyword ∈ nestedTypeWords
  isGap : IsGap gap
  isName : IsWord name
  ends : WordEnds (between ++ '{' :: rest)
  plain : Plain between
  silent : Silent nestedTypeWords (lastOf none name) between ('{' :: rest)

namespace NestedHeader

/-- A header up to its opening brace. -/
def front (h : NestedHeader) : List Char :=
  h.modifiers.chars ++ (h.keyword ++ (h.gap ++ (h.name ++ h.between)))

/-- A header with its opening brace. -/
def chars (h : NestedHeader) : List Char := h.front ++ ['{']

/-- The text that begins with a header. -/
def text (h : NestedHeader) : List Char := h.chars ++ h.rest

theorem text_eq (h : NestedHeader) :
    h.text = h.modifiers.chars ++
      (h.keyword ++ (h.gap ++ (h.name ++ (h.between ++ '{' :: h.rest)))) := by
  unfold text chars front
  simp only [List.append_assoc, List.cons_append, List.nil_append]

theorem chars_ne_nil (h : NestedHeader) : h.chars ≠ [] :=
  List.append_ne_nil_of_right_ne_nil _ (by simp)

theorem isWord_keyword (h : NestedHeader) : IsWord h.keyword :=
  isWord_nestedTypeWords _ h.isKeyword

end NestedHeader

/-- A nested type is headed at a place: a header stands there, and no word goes on into it. -/
def IsNestedHeader : PlaceProp := fun before s =>
  before.any isWord = false ∧ ∃ h : NestedHeader, s = h.text

theorem Row.Of.plain (h : ks.Of typeModifiers) : Plain ks.chars :=
  h.forall_chars (fun _ hw => plain_of_isWord (isWord_typeModifiers _ hw))
    fun _ hg => plain_of_blank hg.2

/-- No brace stands in a header before its last character. -/
theorem NestedHeader.plain_front (h : NestedHeader) : Plain h.front :=
  h.areModifiers.plain.append ((plain_of_isWord h.isWord_keyword).append
    ((plain_of_blank h.isGap.2).append ((plain_of_isWord h.isName).append h.plain)))

/-! ## The reader finds headers -/

/-- A nested type is read exactly where one is headed, and the block behind its header with it. -/
theorem nestedType_eq_some_iff :
    nestedType before s = some ((), r) ↔ before.any isWord = false ∧
      ∃ h : NestedHeader, s = h.text ∧ r = (splitClose 0 h.rest).2.drop 1 := by
  constructor
  · intro h
    unfold nestedType at h
    simp only [guard_eq_some, Option.bind_eq_bind, Option.bind_eq_some_iff] at h
    -- the parts of the header are what the reader's steps found
    obtain ⟨_, hb, t, hfind, ⟨name, u⟩, hword, v, hheader, hpair⟩ := h
    obtain ⟨place, hplace, hskip⟩ := List.exists_of_findSome?_eq_some hfind
    obtain ⟨ks, hks, rfl⟩ := exists_row_of_mem_reach hplace
    obtain ⟨w, hw, g, rfl, hne, hg⟩ := skipWord_eq_some hskip
    obtain ⟨rfl, hname, hends⟩ := word_eq_some_iff.mp hword
    rw [← lastOf_none] at hheader
    obtain ⟨between, rfl, hplain, hsilent⟩ :=
      (afterHeader_eq_some_iff isWord_nestedTypeWords prefixFree_nestedTypeWords).mp hheader
    let header : NestedHeader :=
      ⟨ks, w, g, name, between, v, hks, hw, ⟨hne, hg⟩, hname, hends, hplain, hsilent⟩
    refine ⟨(hks.isBoundary_iff isWord_typeModifiers header.isWord_keyword).mp hb, header,
      header.text_eq.symm, ?_⟩
    exact (congrArg Prod.snd (Option.some.inj hpair)).symm
  · -- the other way, each step of the reader succeeds on its part
    rintro ⟨hb, h, rfl, rfl⟩
    have hheader : afterHeader nestedTypeWords h.name.getLast? (h.between ++ '{' :: h.rest) =
        some h.rest := by
      rw [← lastOf_none]
      exact afterHeader_append isWord_nestedTypeWords h.plain h.silent
    rw [h.text_eq]
    unfold nestedType
    simp only [guard, h.areModifiers.isBoundary_iff isWord_typeModifiers h.isWord_keyword, hb,
      if_true, Option.pure_def, Option.bind_eq_bind, Option.bind_some,
      findSome?_keyword h.areModifiers h.isKeyword h.isGap (h.isName.blanksEnd _),
      word_append h.isName h.ends, hheader]

theorem matches_nestedType_iff : Matches nestedType before s ↔ IsNestedHeader before s := by
  unfold Matches
  rw [Option.isSome_iff_exists]
  constructor
  · rintro ⟨⟨_, r⟩, hread⟩
    obtain ⟨hb, h, hs, _⟩ := nestedType_eq_some_iff.mp hread
    exact ⟨hb, h, hs⟩
  · rintro ⟨hb, h, hs⟩
    exact ⟨_, nestedType_eq_some_iff.mpr ⟨hb, h, hs, rfl⟩⟩

end ClassAtlas.Code
