import ClassAtlas.Proofs.Code.MemberWords

/-!
# Reading a row of words

None of the words that the reader knows begins another one, so a row of them is passed over whatever
the order in which they are tried. Behind an access word and such a row the next two words are
always tried for a type and a name, and if a bracket follows them nothing else can be read. So the
reader takes any word for a type, even one that it would pass over if another word stood behind it.
-/

namespace ClassAtlas.Code

open Text

variable {tail : List Char → Option (List Char)} {before : Option Char} {c : Char}
  {s w x g n b p rest : List Char}

/-! ## Rows that are passed over -/

namespace Row

variable {ks : Row} {k : List Char × List Char}

/-- The rows that are passed over between an access word and a type: modifiers, perhaps behind the
second word of a compound access. -/
inductive Skippable : Row → Prop
  | modifiers {ks : Row} (h : ks.Of memberModifiers) : Skippable ks
  | second {w g : List Char} {ks : Row} (hw : w ∈ secondAccessWords) (hg : IsGap g)
      (h : ks.Of memberModifiers) : Skippable ((w, g) :: ks)

theorem Skippable.of (h : ks.Skippable) : ks.Of skippedWords := by
  have hmodifier : ∀ w ∈ memberModifiers, w ∈ skippedWords := fun _ => List.mem_append_right _
  cases h with
  | modifiers h => exact h.mono hmodifier
  | second hw hg h =>
    exact List.forall_mem_cons.mpr ⟨⟨List.mem_append_left _ hw, hg⟩, h.mono hmodifier⟩

/-- The row before the last of its words is passed over as well. -/
theorem Skippable.init (h : Row.Skippable (ks ++ [k])) : ks.Skippable := by
  generalize hrow : ks ++ [k] = row at h
  cases h with
  | modifiers h =>
    rw [← hrow] at h
    exact .modifiers fun k' hk' => h k' (List.mem_append_left _ hk')
  | @second w g ks' hw hg h =>
    cases ks with
    | nil =>
      -- the second word of the access is the last one itself
      exact .modifiers (by simp [Of])
    | cons k' ks =>
      obtain ⟨rfl, rfl⟩ := List.cons.inj hrow
      exact .second hw hg fun k' hk' => h k' (List.mem_append_left _ hk')

end Row

variable {ks : Row}

theorem mem_placesBehind (hg : IsGap g) (h : ks.Of memberModifiers) (hp : BlanksEnd p) :
    p ∈ placesBehind (g ++ (ks.chars ++ p)) := by
  unfold placesBehind
  rw [gap_append hg (h.blanksEnd isWord_memberModifiers hp)]
  exact h.mem_reach (by decide +kernel) isWord_memberModifiers hp
    (h.length_le isWord_memberModifiers p)

/-- The text behind such a row is one of the places that are tried for a type. -/
theorem mem_typePlaces (hg : IsGap g) (h : ks.Skippable) (hp : BlanksEnd p) :
    p ∈ typePlaces (g ++ (ks.chars ++ p)) := by
  rw [typePlaces_eq]
  cases h with
  | modifiers h => exact List.mem_append_right _ (mem_placesBehind hg h hp)
  | @second w g' ks' hw hg' h =>
    refine List.mem_append_left _ ?_
    have hone : oneOf secondAccessWords (w ++ (g' ++ (ks'.chars ++ p))) =
        some (w, g' ++ (ks'.chars ++ p)) := oneOf_append (by decide +kernel) hw _
    rw [Row.chars_cons, List.append_assoc, List.append_assoc]
    unfold placesBehindSecond
    rw [gap_append hg ((isWord_secondAccessWords w hw).blanksEnd _), Option.bind_some, hone]
    exact mem_placesBehind hg' h hp

theorem typeAndName_word (hw : IsWord w) (hg : IsGap g) (hn : IsWord n) (hs : WordEnds s) :
    typeAndName tail (w ++ (g ++ (n ++ s))) = (tail (trimStart s)).map ((w, n), ·) := by
  have htype : typeName (w ++ (g ++ (n ++ s))) = some (w, g ++ (n ++ s)) := by
    obtain ⟨d, g, rfl⟩ := List.exists_cons_of_ne_nil hg.1
    have hd : isBlank d = true := hg.2 d (by simp)
    refine typeName_word hw ⟨isWord_of_isBlank hd, fun hmark => ?_⟩ _
    have key : ∀ c ∈ ['.', '<', '[', '?'], isBlank c = false := by decide
    rw [key d hmark] at hd
    exact absurd hd (by simp)
  unfold typeAndName
  simp only [htype, Option.bind_eq_bind, Option.bind_some, gap_append hg (hn.blanksEnd s),
    word_append hn hs]
  cases tail (trimStart s) <;> rfl

/-! ## Reading a row -/

/-- Where no member is read behind an access word, none is read at any place that is tried. -/
theorem typeAndName_of_member_none {access : List Char} (ha : access ∈ accessWords)
    (h : member tail before (access ++ s) = none) (hp : p ∈ typePlaces s) :
    typeAndName tail p = none := by
  unfold member at h
  rw [oneOf_append (by decide +kernel) ha] at h
  simp only [Option.bind_eq_bind, Option.bind_some, Option.bind_eq_none_iff, reduceCtorEq,
    imp_false] at h
  exact List.findSome?_eq_none_iff.mp (Option.eq_none_iff_forall_not_mem.mpr h) p hp

/-- A row of words before a bracket is read: behind an access word and words that are passed over,
the last two are the type and the name, whatever words they are. -/
theorem member_reads (htail : Bracketed tail) {access : List Char} (ha : access ∈ accessWords)
    (hx : IsGap x) (hks : ks.Skippable) (hw : IsWord w) (hg : IsGap g) (hn : IsWord n)
    (hb : ∀ d ∈ b, isBlank d = true) (hc : c ∈ bracketMarks) :
    member tail before (access ++ (x ++ (ks.chars ++ (w ++ (g ++ (n ++ (b ++ c :: rest))))))) =
      (tail (c :: rest)).map fun r =>
        (⟨String.ofList access, String.ofList w, String.ofList n⟩, r) := by
  have hmark := mark_of_bracket hc
  have hends : WordEnds (b ++ c :: rest) :=
    wordEnds_blanks_append hb (Bool.or_eq_false_iff.mp hmark).1
  have htrim : trimStart (b ++ c :: rest) = c :: rest := by
    rw [trimStart_append hb,
      trimStart_of_ends (blanksEnd_cons.mpr (Bool.or_eq_false_iff.mp hmark).2)]
  have hplace : typeAndName tail (w ++ (g ++ (n ++ (b ++ c :: rest)))) =
      (tail (c :: rest)).map ((w, n), ·) := by
    rw [typeAndName_word hw hg hn hends, htrim]
  have hmem := mem_typePlaces hx hks (hw.blanksEnd (g ++ (n ++ (b ++ c :: rest))))
  cases hread : member tail before
      (access ++ (x ++ (ks.chars ++ (w ++ (g ++ (n ++ (b ++ c :: rest))))))) with
  | none =>
    -- the place behind the row has been tried as well
    have hnone := typeAndName_of_member_none ha hread hmem
    rw [hplace, Option.map_eq_none_iff] at hnone
    rw [hnone]
    rfl
  | some found =>
    obtain ⟨m, r⟩ := found
    have hrow : Lettered (access ++ (x ++ ks.chars)) :=
      hks.of.lettered_behind isWord_skippedWords (isWord_accessWords _ ha) hx
    have hend : (lastOf none (access ++ (x ++ ks.chars))).any isWord = false :=
      hks.of.ends_behind hx access
    have hsplit : member tail before
        ((access ++ (x ++ ks.chars)) ++ (w ++ (g ++ (n ++ (b ++ c :: rest))))) = some (m, r) := by
      rw [← hread]
      simp only [List.append_assoc]
    obtain ⟨htype, hname, hr, g', hg', ks', _, haccess, hfront⟩ :=
      member_row htail hrow hend hw hg hn hb hc hsplit
    obtain ⟨ha', _⟩ := word_split_unique (isWord_accessWords _ ha).2
      (isWord_accessWords _ haccess).2 (wordEnds_of_blanks (hx.not_blanksEnd _))
      (wordEnds_of_blanks (hg'.not_blanksEnd _)) hfront
    rw [hr, ha', ← htype, ← hname]
    simp only [Option.map_some, String.ofList_toList]

end ClassAtlas.Code
