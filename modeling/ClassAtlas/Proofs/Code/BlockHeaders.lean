import ClassAtlas.Proofs.Code.Declarations
import ClassAtlas.Proofs.Text.Occurrences

/-!
# Headers of blocks

A block is looked for by a header: the keyword of a class or an interface, the name, and what stands
between the name and the next brace. The header runs over line ends, but not into a place where a
class or an interface is headed. Other types do not stop it, so a class without a block takes the
one of a struct or an enumeration behind it for its own.

A header holds no keyword but its own, unless the name is one. So the headers of a name stand apart,
and a block is found behind each of them.
-/

namespace ClassAtlas.Code

open Text

variable {before : Option Char} {words : List (List Char)} {s r u rest : List Char}

/-! ## Headers -/

/-- Where a type is headed, a header stops. -/
theorem declares_of_heads (hfree : PrefixFree words) (h : Heads words before s) :
    declares words before s = true := by
  obtain ⟨hb, w, hw, r, rfl, hr⟩ := h
  obtain ⟨hblank, hword⟩ := Bool.and_eq_true_iff.mp hr
  have hgap : gap r = some (trimStart r) :=
    gap_eq_some_iff.mpr ⟨by simp [BlanksEnd, hblank], rfl⟩
  unfold declares
  rw [hb, oneOf_append hfree hw, Option.bind_some]
  dsimp only
  rw [hgap]
  exact hword

/-- A header is all that stands before its brace, and no type is headed in it. -/
theorem afterHeader_eq_some_iff (hwords : ∀ w ∈ words, IsWord w) (hfree : PrefixFree words) :
    afterHeader words before s = some r ↔
      ∃ u, s = u ++ '{' :: r ∧ Plain u ∧ Silent words before u ('{' :: r) := by
  constructor
  · intro h
    induction s generalizing before with
    | nil => exact absurd h (by simp [afterHeader])
    | cons c s ih =>
      rw [afterHeader] at h
      split at h
      · exact absurd h (by simp)
      · rename_i hdeclares
        split at h
        · rename_i hopen
          exact ⟨[], by rw [hopen, Option.some.inj h]; rfl, by simp [Plain], trivial⟩
        · rename_i hopen
          split at h
          · exact absurd h (by simp)
          · rename_i hstop
            -- the character is skipped: it closes nothing, and no declaration starts at it
            obtain ⟨u, rfl, hplain, hsilent⟩ := ih h
            have hnot : ¬ Heads words before (c :: (u ++ '{' :: r)) :=
              fun hheads => hdeclares (declares_of_heads hfree hheads)
            refine ⟨c :: u, rfl, ?_, hnot, hsilent⟩
            exact List.forall_mem_cons.mpr ⟨⟨hopen, not_or.mp hstop⟩, hplain⟩
  · rintro ⟨u, rfl, hplain, hsilent⟩
    exact afterHeader_append hwords hplain hsilent

/-- The header of a block: in a text, the keyword of a class or interface, a name, and what stands
between the name and the next brace. Neither a class nor an interface is headed there, and no brace
is closed and no statement ended. -/
@[ext]
structure BlockHeader (name : List Char) where
  front : List Char
  keyword : List Char
  gap : List Char
  between : List Char
  rest : List Char
  isTypeWord : keyword ∈ typeWords
  starts : (lastOf none front).any isWord = false
  isGap : IsGap gap
  ends : WordEnds (between ++ '{' :: rest)
  plain : Plain between
  silent : Silent typeWords (lastOf none name) between ('{' :: rest)

namespace BlockHeader

variable {name : List Char}

/-- The header from its keyword on, and the text behind it. -/
def behind (h : BlockHeader name) : List Char :=
  h.keyword ++ (h.gap ++ (name ++ (h.between ++ '{' :: h.rest)))

/-- The text that a header stands in. -/
def chars (h : BlockHeader name) : List Char := h.front ++ h.behind

/-- The body behind a header. -/
def body (h : BlockHeader name) : List Char := (splitClose 0 h.rest).1

end BlockHeader

theorem block_eq_some_iff {name body : List Char} (hname : IsWord name) {front : List Char} :
    block name (lastOf none front) s = some (body, r) ↔
      ∃ h : BlockHeader name, h.front = front ∧ h.behind = s ∧ h.rest = r ∧ h.body = body := by
  have hlast := lastOf_eq_getLastD hname.1 none ' '
  constructor
  · intro h
    unfold block at h
    simp only [guard_eq_some, Option.bind_eq_bind, Option.bind_eq_some_iff] at h
    -- the fields of the header are what the reader's steps found, one after the other
    obtain ⟨_, hb, ⟨w, t⟩, hone, v, hgap, _, hend, r', hheader, hpair⟩ := h
    obtain ⟨rfl, rfl⟩ := Prod.mk.inj (Option.some.inj hpair)
    obtain ⟨hw, rfl⟩ := oneOf_eq_some hone
    obtain ⟨hblank, htrim⟩ := (gapAndName_eq_some_iff hname).mp hgap
    obtain ⟨g, hne, hg, hall⟩ := gap_split hblank
    dsimp only at hg htrim
    rw [← hlast] at hend hheader
    obtain ⟨u, rfl, hplain, hsilent⟩ :=
      (afterHeader_eq_some_iff isWord_typeWords prefixFree_typeWords).mp hheader
    have hstart := (isWord_typeWords w hw).before_of_isBoundary hb
    refine ⟨⟨front, w, g, u, r', hw, hstart, ⟨hne, hall⟩, ?_, hplain, hsilent⟩, rfl, ?_, rfl, rfl⟩
    · exact (isBoundary_after (lastOf_word hname none)).mp hend
    · rw [BlockHeader.behind, ← htrim, ← hg]
  · rintro ⟨h, rfl, rfl, rfl, rfl⟩
    have hword := isWord_typeWords h.keyword h.isTypeWord
    refine block_eq_some hname (isBoundary_word h.starts hword _)
      (oneOf_append prefixFree_typeWords h.isTypeWord _) ?_ h.ends
      ((afterHeader_eq_some_iff isWord_typeWords prefixFree_typeWords).mpr
        ⟨h.between, rfl, h.plain, h.silent⟩)
    refine (gapAndName_eq_some_iff hname).mpr ⟨h.isGap.not_blanksEnd _, ?_⟩
    rw [trimStart_append h.isGap.2, trimStart_of_ends (hname.blanksEnd _)]

/-- A header is determined by its text and by its place. -/
theorem BlockHeader.eq_of_front {name : List Char} (hname : IsWord name) {h k : BlockHeader name}
    (hfront : h.front = k.front) (hchars : h.chars = k.chars) : h = k := by
  unfold BlockHeader.chars at hchars
  rw [hfront] at hchars
  have hbehind := List.append_cancel_left hchars
  unfold BlockHeader.behind at hbehind
  -- part by part: each ends where its sort of characters does, in both texts
  obtain ⟨hkeyword, hbehind⟩ := word_split_unique (isWord_typeWords _ h.isTypeWord).2
    (isWord_typeWords _ k.isTypeWord).2 (wordEnds_of_blanks (h.isGap.not_blanksEnd _))
    (wordEnds_of_blanks (k.isGap.not_blanksEnd _)) hbehind
  obtain ⟨hgap, hbehind⟩ := split_unique h.isGap.2 k.isGap.2 (hname.blanksEnd _)
    (hname.blanksEnd _) hbehind
  have hrest := List.append_cancel_left hbehind
  have hplain {x : BlockHeader name} : ∀ c ∈ x.between, decide (c ≠ '{') = true :=
    fun c hc => decide_eq_true (x.plain c hc).1
  have hbrace {t : List Char} : ('{' :: t).head?.any (fun c => decide (c ≠ '{')) = false := rfl
  obtain ⟨hbetween, hrest⟩ := split_unique hplain hplain hbrace hbrace hrest
  exact BlockHeader.ext hfront hkeyword hgap hbetween (List.cons.inj hrest).2

/-- Where the name is no keyword, no block is found within the header of another one. -/
theorem apart_block {name : List Char} (hname : IsWord name) (hnot : name ∉ typeWords) :
    Apart (block name) := by
  intro before c s body r hblock
  have hbefore : lastOf none before.toList = before := by cases before <;> rfl
  rw [← hbefore] at hblock
  obtain ⟨h, _, hbehind, rfl, _⟩ := (block_eq_some_iff hname).mp hblock
  have hword := isWord_typeWords h.keyword h.isTypeWord
  unfold BlockHeader.behind at hbehind
  cases hkeyword : h.keyword with
  | nil => exact absurd hkeyword hword.1
  | cons d k =>
    rw [hkeyword] at hbehind hword
    obtain ⟨rfl, rfl⟩ := List.cons.inj hbehind
    refine ⟨k ++ (h.gap ++ (name ++ (h.between ++ ['{']))), by simp, ?_⟩
    have hlast : lastOf (lastOf (lastOf (some d) k) h.gap) name = lastOf none name := by
      rw [lastOf_eq_getLastD hname.1 _ ' ', lastOf_eq_getLastD hname.1 _ ' ']
    have hends : WordEnds (h.between ++ ['{'] ++ h.rest) := by simpa using h.ends
    have hbetween : Silent typeWords (lastOf (lastOf (lastOf (some d) k) h.gap) name) h.between
        (['{'] ++ h.rest) := by
      rw [hlast]
      exact h.silent
    -- no keyword begins inside the keyword, in the gap, at the name or behind it
    refine (declarative_block hname).nowhere (Nowhere.append ?_ (Nowhere.append ?_
      (Nowhere.append ?_ (Nowhere.append hbetween ?_))))
    · exact nowhere_inside (lexical_heads isWord_typeWords) (hword.2 d (by simp))
        fun e he => hword.2 e (List.mem_cons_of_mem _ he)
    · exact silent_blanks isWord_typeWords h.isGap.2
    · exact silent_word isWord_typeWords hname hnot hends
    · exact silent_marks isWord_typeWords (by decide)

/-- The blocks of a name are those behind its headers. -/
theorem exists_headers {name : List Char} (hname : IsWord name) (s : List Char) :
    ∃ headers : List (BlockHeader name),
      occurrences (block name) s = headers.map (·.body) ∧
      headers.Pairwise (fun h k => h.front.length < k.front.length) ∧
      (∀ h ∈ headers, h.chars = s) ∧
      (name ∉ typeWords → ∀ h : BlockHeader name, h.chars = s → h ∈ headers) := by
  obtain ⟨os, hvalues, hsorted, hall⟩ := exists_occurrences (block name) none s
  have hheader : ∀ o : Occurrence (block name) none s, ∃ h : BlockHeader name,
      h.front = o.front ∧ h.behind = o.behind ∧ h.rest = o.rest ∧ h.body = o.value :=
    fun o => (block_eq_some_iff hname).mp o.reads
  -- every occurrence gives a header; `eq_of_front` says that there is only one
  choose header hfront hbehind _ hbody using hheader
  have hchars (o : Occurrence (block name) none s) : (header o).chars = s := by
    rw [BlockHeader.chars, hfront, hbehind, ← o.split]
  refine ⟨os.map header, ?_, ?_, ?_, ?_⟩
  · rw [List.map_map]
    exact hvalues.trans (List.map_congr_left fun o _ => (hbody o).symm)
  · refine List.pairwise_map.mpr (hsorted.imp fun {o o'} hlt => ?_)
    rwa [hfront, hfront]
  · intro h hh
    obtain ⟨o, _, rfl⟩ := List.mem_map.mp hh
    exact hchars o
  · intro hnot h hh
    have hne : h.behind ≠ [] := by
      have hkeyword := (isWord_typeWords _ h.isTypeWord).1
      simp [BlockHeader.behind, hkeyword]
    -- a header anywhere in the text is an occurrence, and none is skipped over
    let o : Occurrence (block name) none s :=
      ⟨h.front, h.behind, h.body, h.rest, hh.symm, hne,
        (block_eq_some_iff hname).mpr ⟨h, rfl, rfl, rfl, rfl⟩⟩
    refine List.mem_map.mpr ⟨o, hall (apart_block hname hnot) o, ?_⟩
    exact BlockHeader.eq_of_front hname (hfront o) ((hchars o).trans hh.symm)

/-! ## Type headers -/

/-- The header of a type begins: one of some keywords as a whole word, blanks, and a name that is
not the word that begins constraints. -/
def TypeHeader (words : List (List Char)) : PlaceProp := fun before s =>
  before.any isWord = false ∧ ∃ w ∈ words, ∃ g name r, s = w ++ (g ++ (name ++ r)) ∧
    IsGap g ∧ IsWord name ∧ WordEnds r ∧ name ≠ "where".toList

/-- The words that declare a type whose body is not read. -/
def valueTypeWords : List (List Char) := spelled ["struct", "enum"]

theorem heads_of_typeHeader (hwords : ∀ w ∈ words, IsWord w) (h : TypeHeader words before s) :
    Heads words before s := by
  obtain ⟨hb, w, hw, g, name, r, rfl, hg, hname, _⟩ := h
  refine ⟨isBoundary_word hb (hwords w hw) _, w, hw, _, rfl, ?_⟩
  unfold wordFollows
  rw [trimStart_append hg.2, trimStart_of_ends (hname.blanksEnd r), hname.head r, Bool.and_true]
  simpa [BlanksEnd] using hg.not_blanksEnd (name ++ r)

theorem typeHeader_nested_iff :
    TypeHeader nestedTypeWords before s ↔
      TypeHeader typeWords before s ∨ TypeHeader valueTypeWords before s := by
  have hwords : nestedTypeWords = typeWords ++ valueTypeWords := rfl
  unfold TypeHeader
  rw [hwords]
  constructor
  · rintro ⟨hb, w, hw, h⟩
    exact (List.mem_append.mp hw).imp (fun hw => ⟨hb, w, hw, h⟩) fun hw => ⟨hb, w, hw, h⟩
  · rintro (⟨hb, w, hw, h⟩ | ⟨hb, w, hw, h⟩)
    · exact ⟨hb, w, List.mem_append_left _ hw, h⟩
    · exact ⟨hb, w, List.mem_append_right _ hw, h⟩

/-- **Blocks and their headers.** The blocks of a name are the bodies behind headers of that name,
from left to right, and behind all of them unless the name is itself a keyword. Between the name and
the brace no class and no interface begins. So no type at all begins there, and the body belongs to
the name, exactly where no struct and no enumeration begins there. -/
theorem blocks_and_their_headers (text name : String) (hname : IsWord name.toList) :
    ∃ headers : List (BlockHeader name.toList),
      bodies name text.toList = headers.map (·.body) ∧
      headers.Pairwise (fun h k => h.front.length < k.front.length) ∧
      (∀ h ∈ headers, h.chars = text.toList ∧
        Nowhere (TypeHeader typeWords) (lastOf none name.toList) h.between ('{' :: h.rest) ∧
        (Nowhere (TypeHeader nestedTypeWords) (lastOf none name.toList) h.between
            ('{' :: h.rest) ↔
          Nowhere (TypeHeader valueTypeWords) (lastOf none name.toList) h.between
            ('{' :: h.rest))) ∧
      (name.toList ∉ typeWords →
        ∀ h : BlockHeader name.toList, h.chars = text.toList → h ∈ headers) := by
  obtain ⟨headers, hbodies, hsorted, hchars, hall⟩ := exists_headers hname text.toList
  refine ⟨headers, hbodies, hsorted, ?_, hall⟩
  intro h hh
  have hguarded : Nowhere (TypeHeader typeWords) (lastOf none name.toList) h.between
      ('{' :: h.rest) := Nowhere.mono h.silent fun _ _ => heads_of_typeHeader isWord_typeWords
  refine ⟨hchars h hh, hguarded, ?_, ?_⟩
  · exact fun hnone => Nowhere.mono hnone fun _ _ hvalue => typeHeader_nested_iff.mpr (.inr hvalue)
  · -- a nested type is introduced by a type word, ruled out by the guard, or by one for values
    intro hnone
    refine nowhere_of_forall fun x v hxv hv hheader => ?_
    rw [hxv] at hguarded hnone
    rcases typeHeader_nested_iff.mp hheader with htype | hvalue
    · exact hguarded.not_at hv htype
    · exact hnone.not_at hv hvalue

/-- A class without a block before one that has one, and then a block of the first name. -/
theorem blocks_and_their_headers_kennel :
    IsWord "Dog".toList ∧ ∃ headers : List (BlockHeader "Dog".toList),
      ["bark".toList] = headers.map (·.body) ∧
      ∀ h ∈ headers,
        h.chars = "class Dog : Pet\nclass Pet \x7bname\x7d\nclass Dog \x7bbark\x7d".toList ∧
        Nowhere (TypeHeader typeWords) (lastOf none "Dog".toList) h.between ('{' :: h.rest) := by
  have hname : IsWord "Dog".toList := by decide +kernel
  obtain ⟨headers, hbodies, _, hheaders, _⟩ := blocks_and_their_headers
    "class Dog : Pet\nclass Pet \x7bname\x7d\nclass Dog \x7bbark\x7d" "Dog" hname
  have hfound : bodies "Dog"
      "class Dog : Pet\nclass Pet \x7bname\x7d\nclass Dog \x7bbark\x7d".toList =
        ["bark".toList] := by decide +kernel
  exact ⟨hname, headers, hfound.symm.trans hbodies,
    fun h hh => ⟨(hheaders h hh).1, (hheaders h hh).2.1⟩⟩

/-- The header of a class without a block, read up to the brace of a struct. -/
def dogHeader : BlockHeader "Dog".toList where
  front := []
  keyword := "class".toList
  gap := [' ']
  between := "\nstruct Point\n".toList
  rest := "\n    public int X \x7b get; set; \x7d\n\x7d\n".toList
  isTypeWord := by decide +kernel
  starts := rfl
  isGap := by decide
  ends := by decide +kernel
  plain := by decide +kernel
  silent := silent_of_absent isWord_typeWords (by decide +kernel) (.inl (by decide +kernel))

/-- The block of a struct is found for the class before it: a struct is headed between the name of
the class and the brace. -/
theorem block_of_a_struct :
    ¬ ∀ (text name : String), IsWord name.toList →
      ∀ headers : List (BlockHeader name.toList), bodies name text.toList = headers.map (·.body) →
        (∀ h ∈ headers, h.chars = text.toList) → ∀ h ∈ headers,
          Nowhere (TypeHeader nestedTypeWords) (lastOf none name.toList) h.between
            ('{' :: h.rest) := by
  intro hclaim
  have hnone := hclaim
    "class Dog\nstruct Point\n\x7b\n    public int X \x7b get; set; \x7d\n\x7d\n" "Dog"
    (by decide +kernel) [dogHeader] (by decide +kernel) (by decide +kernel) dogHeader (by simp)
  have hsplit : dogHeader.between = ['\n'] ++ ("struct".toList ++ ([' '] ++
      ("Point".toList ++ ['\n']))) := by decide +kernel
  rw [hsplit] at hnone
  refine hnone.not_at (by simp) ⟨by decide +kernel, "struct".toList, by decide +kernel, [' '],
    "Point".toList, '\n' :: '{' :: dogHeader.rest, by decide +kernel, by decide, by decide +kernel,
    by decide +kernel, by decide +kernel⟩

end ClassAtlas.Code
