import Mathlib.Data.List.Basic
import ClassAtlas.Proofs.Code.OwnMembers

/-!
# The words of a member

The reader of members has several places to choose from behind an access word, and it settles for
the first one at which a type and a name can be read. It makes no difference which places there are:
up to its first bracket a member is a row of words, or its type has a mark in it. In a row of words
the last one is the name and the one before it is the type, so a text leaves the reader nothing to
choose.

This tells what is read from the text alone, keywords or not, and it also tells where nothing is
read: before a bracket that the reader does not look for.
-/

namespace ClassAtlas.Code

open Text

variable {tail : List Char → Option (List Char)} {before : Option Char} {c d : Char}
  {words : List (List Char)} {s t r u w x g n b p rest : List Char}

/-! ## Rows of words -/

/-- Word characters and blanks, and nothing else. -/
def Lettered (s : List Char) : Prop := ∀ c ∈ s, (isWord c || isBlank c) = true

theorem Lettered.append (hs : Lettered s) (ht : Lettered t) : Lettered (s ++ t) :=
  List.forall_mem_append.mpr ⟨hs, ht⟩

theorem lettered_word (hw : IsWord w) : Lettered w := fun c hc => by rw [hw.2 c hc]; rfl

theorem lettered_blanks (hb : ∀ c ∈ b, isBlank c = true) : Lettered b :=
  fun c hc => by rw [hb c hc, Bool.or_true]

theorem lettered_pair (hw : IsWord w) (hg : IsGap g) (hn : IsWord n)
    (hb : ∀ c ∈ b, isBlank c = true) : Lettered (w ++ (g ++ (n ++ b))) :=
  (lettered_word hw).append ((lettered_blanks hg.2).append
    ((lettered_word hn).append (lettered_blanks hb)))

namespace Row

variable {ks : Row}

theorem Of.lettered (hwords : ∀ w ∈ words, IsWord w) (h : ks.Of words) : Lettered ks.chars :=
  h.forall_chars (fun _ hw => lettered_word (hwords _ hw)) fun _ hg => lettered_blanks hg.2

theorem Of.lettered_behind (hwords : ∀ w ∈ words, IsWord w) (h : ks.Of words) (hw : IsWord w)
    (hg : IsGap g) : Lettered (w ++ (g ++ ks.chars)) :=
  (lettered_word hw).append ((lettered_blanks hg.2).append (h.lettered hwords))

end Row

/-! ## Splitting a row -/

theorem head?_reverse (s : List Char) : s.reverse.head? = lastOf none s := by
  rcases List.eq_nil_or_concat' s with rfl | ⟨t, c, rfl⟩
  · rfl
  · simp

/-- Where a row of words ends in a mark is determined. -/
theorem mark_unique (hx : Lettered x) (hu : Lettered u) (hc : (isWord c || isBlank c) = false)
    (hd : (isWord d || isBlank d) = false) (h : x ++ c :: s = u ++ d :: t) :
    x = u ∧ c = d ∧ s = t := by
  obtain ⟨hxu, hrest⟩ : x = u ∧ c :: s = d :: t := split_unique hx hu hc hd h
  exact ⟨hxu, List.cons.inj hrest⟩

/-- The last two words of a row are determined, and so is what stands before them. -/
theorem last_words_unique {x' w' g' n' b' : List Char} (hx : (lastOf none x).any isWord = false)
    (hx' : (lastOf none x').any isWord = false) (hw : IsWord w) (hw' : IsWord w') (hg : IsGap g)
    (hg' : IsGap g') (hn : IsWord n) (hn' : IsWord n') (hb : ∀ c ∈ b, isBlank c = true)
    (hb' : ∀ c ∈ b', isBlank c = true)
    (h : x ++ (w ++ (g ++ (n ++ b))) = x' ++ (w' ++ (g' ++ (n' ++ b')))) :
    x = x' ∧ w = w' ∧ n = n' := by
  have hword {v : List Char} (hv : IsWord v) : ∀ c ∈ v.reverse, isWord c = true :=
    fun c hc => hv.2 c (List.mem_reverse.mp hc)
  have hblank {v : List Char} (hv : ∀ c ∈ v, isBlank c = true) :
      ∀ c ∈ v.reverse, isBlank c = true := fun c hc => hv c (List.mem_reverse.mp hc)
  have hstart {v y : List Char} (hv : IsWord v) : BlanksEnd (v.reverse ++ y) :=
    IsWord.blanksEnd ⟨by simpa using hv.1, hword hv⟩ y
  have hends {v y : List Char} (hv : IsGap v) : WordEnds (v.reverse ++ y) := by
    rw [wordEnds_append (by simpa using hv.1)]
    obtain ⟨c, hc, heq⟩ := lastOf_mem hv.1 none
    unfold WordEnds
    rw [head?_reverse, heq]
    exact isWord_of_isBlank (hv.2 c hc)
  have hfront {y : List Char} (hy : (lastOf none y).any isWord = false) : WordEnds y.reverse := by
    unfold WordEnds
    rwa [head?_reverse]
  -- read from the end, each part is a run of its own kind
  have hrev := congrArg List.reverse h
  simp only [List.reverse_append, List.append_assoc] at hrev
  obtain ⟨_, hrev⟩ := split_unique (hblank hb) (hblank hb') (hstart hn) (hstart hn') hrev
  obtain ⟨hname, hrev⟩ := split_unique (hword hn) (hword hn') (hends hg) (hends hg') hrev
  obtain ⟨_, hrev⟩ := split_unique (hblank hg.2) (hblank hg'.2) (hstart hw) (hstart hw') hrev
  obtain ⟨htype, hrev⟩ := split_unique (hword hw) (hword hw') (hfront hx) (hfront hx') hrev
  exact ⟨List.reverse_injective hrev, List.reverse_injective htype, List.reverse_injective hname⟩

/-! ## The text of a type -/

/-- The brackets and the mark that stand in no type. -/
def bracketMarks : List Char := ['(', ')', '{', '}', ';']

/-- No bracket stands in the text. -/
def Bracketless (s : List Char) : Prop := ∀ c ∈ s, c ∉ bracketMarks

instance (s : List Char) : Decidable (Bracketless s) := inferInstanceAs (Decidable (∀ c ∈ s, _))

theorem Bracketless.append (hs : Bracketless s) (ht : Bracketless t) : Bracketless (s ++ t) :=
  List.forall_mem_append.mpr ⟨hs, ht⟩

theorem Lettered.bracketless (hs : Lettered s) : Bracketless s := by
  intro c hc hmark
  have hlettered := hs c hc
  have key : ∀ c ∈ bracketMarks, (isWord c || isBlank c) = false := by decide
  rw [key c hmark] at hlettered
  exact absurd hlettered (by simp)

/-- What is read of an optional part of a type: nothing, or a text without brackets that begins with
the mark of the part. -/
structure PartOf (mark : Char) (s part r : List Char) : Prop where
  split : s = part ++ r
  bracketless : Bracketless part
  starts : part = [] ∨ part.head? = some mark

theorem PartOf.missing (mark : Char) (s : List Char) : PartOf mark s [] s :=
  ⟨rfl, by simp [Bracketless], .inl rfl⟩

theorem of_typeArguments {inner : Bool} (h : typeArguments inner s = some (t, r)) :
    s = t ++ r ∧ Bracketless t := by
  induction s generalizing inner t with
  | nil => exact absurd h (by simp [typeArguments])
  | cons c s ih =>
    rw [typeArguments] at h
    split at h
    · rename_i hclose
      obtain ⟨rfl, rfl⟩ := Prod.mk.inj (Option.some.inj h)
      exact ⟨rfl, by rw [hclose.1]; decide⟩
    · split at h
      · exact absurd h (by simp)
      · -- a mark that ends the list of arguments has been ruled out here, and so have brackets
        rename_i hstop
        obtain ⟨⟨t', r'⟩, hargs, heq⟩ := Option.map_eq_some_iff.mp h
        obtain ⟨rfl, rfl⟩ := Prod.mk.inj heq
        obtain ⟨rfl, hless⟩ := ih hargs
        exact ⟨rfl, List.forall_mem_cons.mpr ⟨(not_or.mp hstop).2, hless⟩⟩

theorem partOf_optionalArguments (h : optionalArguments s = (t, r)) : PartOf '<' s t r := by
  unfold optionalArguments at h
  split at h
  · rename_i s
    -- an opening bracket that no other one closes is no argument list, and nothing is taken
    cases hargs : typeArguments false s with
    | none =>
      rw [hargs] at h
      obtain ⟨rfl, rfl⟩ := Prod.mk.inj h
      exact PartOf.missing ..
    | some found =>
      rw [hargs] at h
      obtain ⟨rfl, rfl⟩ := Prod.mk.inj h
      obtain ⟨hs, hless⟩ := of_typeArguments hargs
      exact ⟨congrArg ('<' :: ·) hs, List.forall_mem_cons.mpr ⟨by decide, hless⟩, .inr rfl⟩
  · obtain ⟨rfl, rfl⟩ := Prod.mk.inj h
    exact PartOf.missing ..

theorem partOf_arrayMarks (h : arrayMarks s = (t, r)) : PartOf '[' s t r := by
  induction s using arrayMarks.induct generalizing t r with
  | case1 s marks rest heq ih =>
    rw [arrayMarks, heq] at h
    obtain ⟨rfl, rfl⟩ := Prod.mk.inj h
    have hpair : Bracketless ['[', ']'] := by decide
    exact ⟨congrArg (['[', ']'] ++ ·) (ih heq).split, hpair.append (ih heq).bracketless, .inr rfl⟩
  | case2 s hnot =>
    rw [arrayMarks] at h
    · obtain ⟨rfl, rfl⟩ := Prod.mk.inj h
      exact PartOf.missing ..
    · exact hnot

theorem partOf_optionalMark (h : optionalMark s = (t, r)) : PartOf '?' s t r := by
  unfold optionalMark at h
  split at h
  · obtain ⟨rfl, rfl⟩ := Prod.mk.inj h
    exact ⟨rfl, by decide, .inr rfl⟩
  · obtain ⟨rfl, rfl⟩ := Prod.mk.inj h
    exact PartOf.missing ..

/-- The marks that go on a type behind a word. -/
def innerMarks : List Char := ['.', '<', '[', '?']

/-- Nothing, or a text that begins with a mark inside a type. -/
def GoesOn (s : List Char) : Prop := ∀ c ∈ s.head?, c ∈ innerMarks

theorem PartOf.goesOn {mark : Char} (h : PartOf mark s t r) (hmark : mark ∈ innerMarks) :
    GoesOn t := by
  rcases h.starts with rfl | hhead
  · exact fun c hc => absurd hc (by simp)
  · intro c hc
    rw [hhead] at hc
    rwa [← Option.some.inj hc]

theorem GoesOn.append (hs : GoesOn s) (ht : GoesOn t) : GoesOn (s ++ t) := by
  cases s with
  | nil => exact ht
  | cons c s => exact hs

/-- A dotted path goes on behind its first word, if it has another one. -/
theorem goesOn_dropWhile {path : List Char} (hpath : ∀ c ∈ path, (isWord c || c == '.') = true) :
    GoesOn (path.dropWhile isWord) := by
  intro c hc
  have hstop := List.head?_dropWhile_not isWord path
  rw [Option.mem_def.mp hc] at hstop
  have hkind := hpath c ((List.dropWhile_suffix _).subset (List.mem_of_mem_head? hc))
  rw [show isWord c = false from by simpa using hstop, Bool.false_or, beq_iff_eq] at hkind
  rw [hkind]
  decide

/-- A type is a text without brackets. It begins with word characters, and what is left of it begins
with a mark. -/
theorem typeName_eq_some (h : typeName s = some (t, r)) :
    s = t ++ r ∧ Bracketless t ∧ t ≠ [] ∧
      ∃ w u, t = w ++ u ∧ (∀ c ∈ w, isWord c = true) ∧ GoesOn u := by
  unfold typeName at h
  obtain ⟨⟨path, s₁⟩, hpath, heq⟩ := Option.bind_eq_some_iff.mp h
  dsimp only at heq
  obtain ⟨rfl, hne, hall, _⟩ := run_eq_some hpath
  -- a path, then three parts that may each be missing
  rcases hargs : optionalArguments s₁ with ⟨args, s₂⟩
  rcases hmarks : arrayMarks s₂ with ⟨marks, s₃⟩
  rcases hmark : optionalMark s₃ with ⟨mark, s₄⟩
  rw [hargs] at heq
  dsimp only at heq
  rw [hmarks] at heq
  dsimp only at heq
  rw [hmark] at heq
  obtain ⟨rfl, rfl⟩ := Prod.mk.inj (Option.some.inj heq)
  have pargs := partOf_optionalArguments hargs
  have pmarks := partOf_arrayMarks hmarks
  have pmark := partOf_optionalMark hmark
  -- no bracket is among the characters of a path
  have hpathLess : Bracketless path := by
    intro c hc hbracket
    have hkind := hall c hc
    have key : ∀ c ∈ bracketMarks, (isWord c || c == '.') = false := by decide
    rw [key c hbracket] at hkind
    exact absurd hkind (by simp)
  refine ⟨?_, ((hpathLess.append pargs.bracketless).append pmarks.bracketless).append
    pmark.bracketless, by simp [hne], path.takeWhile isWord,
    path.dropWhile isWord ++ (args ++ (marks ++ mark)), ?_, ?_, ?_⟩
  · rw [pargs.split, pmarks.split, pmark.split]
    simp only [List.append_assoc]
  · rw [← List.append_assoc, List.takeWhile_append_dropWhile]
    simp only [List.append_assoc]
  · exact fun c hc => List.all_eq_true.mp List.all_takeWhile c hc
  · exact (goesOn_dropWhile hall).append ((pargs.goesOn (by decide)).append
      ((pmarks.goesOn (by decide)).append (pmark.goesOn (by decide))))

/-! ## What is read -/

/-- The words that are passed over between an access word and a type. -/
def skippedWords : List (List Char) := secondAccessWords ++ memberModifiers

theorem isWord_skippedWords : ∀ w ∈ skippedWords, IsWord w := by decide +kernel

theorem of_mem_placesBehind (h : p ∈ placesBehind s) :
    ∃ g, IsGap g ∧ ∃ ks : Row, ks.Of memberModifiers ∧ s = g ++ (ks.chars ++ p) := by
  unfold placesBehind at h
  cases hgap : gap s with
  | none => rw [hgap] at h; exact absurd h (by simp)
  | some r =>
    rw [hgap] at h
    obtain ⟨ks, hks, rfl⟩ := exists_row_of_mem_reach h
    obtain ⟨hblank, htrim⟩ := gap_eq_some_iff.mp hgap
    obtain ⟨g, hne, hs, hg⟩ := gap_split hblank
    exact ⟨g, ⟨hne, hg⟩, ks, hks, htrim ▸ hs⟩

/-- Between an access word and a place that is tried for a type stand known words only. -/
theorem of_mem_typePlaces (h : p ∈ typePlaces s) :
    ∃ g, IsGap g ∧ ∃ ks : Row, ks.Of skippedWords ∧ s = g ++ (ks.chars ++ p) := by
  have hmodifier : ∀ w ∈ memberModifiers, w ∈ skippedWords := fun _ => List.mem_append_right _
  rw [typePlaces_eq] at h
  rcases List.mem_append.mp h with hsecond | hfirst
  · unfold placesBehindSecond at hsecond
    cases hone : (gap s).bind (oneOf secondAccessWords) with
    | none => rw [hone] at hsecond; exact absurd hsecond (by simp)
    | some found =>
      obtain ⟨w, r⟩ := found
      rw [hone] at hsecond
      obtain ⟨g, hg, ks, hks, rfl⟩ := of_mem_placesBehind hsecond
      -- a second access word stands before the row, which makes it one word longer
      obtain ⟨t, hgap, ht⟩ := Option.bind_eq_some_iff.mp hone
      obtain ⟨hw, rfl⟩ := oneOf_eq_some ht
      obtain ⟨hblank, htrim⟩ := gap_eq_some_iff.mp hgap
      obtain ⟨g', hne, hs, hg'⟩ := gap_split hblank
      refine ⟨g', ⟨hne, hg'⟩, (w, g) :: ks, List.forall_mem_cons.mpr
        ⟨⟨List.mem_append_left _ hw, hg⟩, hks.mono hmodifier⟩, ?_⟩
      rw [hs, htrim]
      simp only [Row.chars_cons, List.append_assoc]
  · obtain ⟨g, hg, ks, hks, hs⟩ := of_mem_placesBehind hfirst
    exact ⟨g, hg, ks, hks.mono hmodifier, hs⟩

/-- The text of a member that was read, up to what the tail has read: the access word, the words
that were passed over, the type and the name, with the blanks behind each of them. -/
structure MemberText (tail : List Char → Option (List Char)) (s : List Char)
    (m : MemberDeclaration) (r : List Char) where
  gap : List Char
  keywords : Row
  space : List Char
  behind : List Char
  isAccess : m.access.toList ∈ accessWords
  isGap_gap : IsGap gap
  skipped : keywords.Of skippedWords
  isGap_space : IsGap space
  isWord_name : IsWord m.name.toList
  ends : WordEnds behind
  reads : tail (trimStart behind) = some r
  split : s = m.access.toList ++ (gap ++ (keywords.chars ++
    (m.type.toList ++ (space ++ (m.name.toList ++ behind)))))
  bracketless : Bracketless m.type.toList
  starts : ∃ w u, m.type.toList = w ++ u ∧ (∀ c ∈ w, isWord c = true) ∧ GoesOn u
  nonempty : m.type.toList ≠ []

theorem exists_memberText {m : MemberDeclaration} (h : member tail before s = some (m, r)) :
    Nonempty (MemberText tail s m r) := by
  unfold member at h
  simp only [Option.bind_eq_bind, Option.bind_eq_some_iff] at h
  -- the reader's steps in order: access word, place, type, gap, name, and what follows
  obtain ⟨⟨access, t⟩, haccess, ⟨⟨type, name⟩, r'⟩, hfind, hpair⟩ := h
  obtain ⟨rfl, rfl⟩ := Prod.mk.inj (Option.some.inj hpair)
  obtain ⟨hmem, rfl⟩ := oneOf_eq_some haccess
  obtain ⟨p, hp, hread⟩ := List.exists_of_findSome?_eq_some hfind
  obtain ⟨g, hg, ks, hks, rfl⟩ := of_mem_typePlaces hp
  unfold typeAndName at hread
  simp only [Option.bind_eq_bind, Option.bind_eq_some_iff] at hread
  obtain ⟨⟨type, t⟩, htype, v, hgap, ⟨name, behind⟩, hword, r', htail, hpair⟩ := hread
  obtain ⟨hnames, rfl⟩ := Prod.mk.inj (Option.some.inj hpair)
  obtain ⟨rfl, rfl⟩ := Prod.mk.inj hnames
  obtain ⟨rfl, hless, hne, hstarts⟩ := typeName_eq_some htype
  obtain ⟨hblank, rfl⟩ := gap_eq_some_iff.mp hgap
  obtain ⟨space, hspace, ht, hblanks⟩ := gap_split hblank
  obtain ⟨htrim, hname, hends⟩ := word_eq_some_iff.mp hword
  -- these steps are the parts of the text, back to back
  refine ⟨⟨g, ks, space, behind, ?_, hg, hks, ⟨hspace, hblanks⟩, ?_, hends, htail, ?_, ?_, ?_, ?_⟩⟩
  · rwa [String.toList_ofList]
  · rwa [String.toList_ofList]
  · dsimp only at ht htrim
    simp only [String.toList_ofList]
    rw [← htrim, ← ht]
  · rwa [String.toList_ofList]
  · rwa [String.toList_ofList]
  · rwa [String.toList_ofList]

/-! ## Up to the first bracket -/

/-- The tail looks for a bracket. -/
def Bracketed (tail : List Char → Option (List Char)) : Prop :=
  ∀ s r, tail s = some r → ∃ c t, s = c :: t ∧ c ∈ bracketMarks

theorem bracketed_of_literal {q : Char} (hq : q ∈ bracketMarks)
    (h : ∀ s r, tail s = some r → ∃ t, literal [q] s = some t) : Bracketed tail := by
  intro s r hs
  obtain ⟨t, ht⟩ := h s r hs
  exact ⟨q, t, literal_eq_some_iff.mp ht, hq⟩

theorem bracketed_accessors : Bracketed accessors :=
  bracketed_of_literal (q := '{') (by decide) fun s r h => by
    obtain ⟨t, ht, _⟩ := Option.bind_eq_some_iff.mp h
    exact ⟨t, ht⟩

theorem bracketed_parameters : Bracketed parameters :=
  bracketed_of_literal (q := '(') (by decide) fun s r h => by
    obtain ⟨t, ht, _⟩ := Option.bind_eq_some_iff.mp h
    exact ⟨t, ht⟩

theorem mark_of_bracket (hc : c ∈ bracketMarks) : (isWord c || isBlank c) = false := by
  have key : ∀ c ∈ bracketMarks, (isWord c || isBlank c) = false := by decide
  exact key c hc

namespace MemberText

variable {m : MemberDeclaration}

/-- The text before the type. -/
def front (t : MemberText tail s m r) : List Char := m.access.toList ++ (t.gap ++ t.keywords.chars)

theorem lettered_front (t : MemberText tail s m r) : Lettered t.front :=
  t.skipped.lettered_behind isWord_skippedWords (isWord_accessWords _ t.isAccess) t.isGap_gap

theorem front_ends (t : MemberText tail s m r) : (lastOf before t.front).any isWord = false :=
  t.skipped.ends_behind t.isGap_gap _

/-- Behind the name stand blanks and the bracket that the tail looks for. -/
theorem exists_bracket (t : MemberText tail s m r) (htail : Bracketed tail) :
    ∃ b c u, t.behind = b ++ c :: u ∧ (∀ d ∈ b, isBlank d = true) ∧ c ∈ bracketMarks ∧
      tail (c :: u) = some r := by
  obtain ⟨b, hbehind, hb⟩ := trimStart_split t.behind
  obtain ⟨c, u, htrim, hc⟩ := htail _ _ t.reads
  refine ⟨b, c, u, ?_, hb, hc, htrim ▸ t.reads⟩
  rwa [htrim] at hbehind

/-- In a row of words before a bracket the type is a word, and all of the row is read. -/
theorem of_row (t : MemberText tail (x ++ c :: rest) m r) (htail : Bracketed tail)
    (hx : Lettered x) (hc : c ∈ bracketMarks) :
    IsWord m.type.toList ∧ tail (c :: rest) = some r ∧ ∃ b, (∀ d ∈ b, isBlank d = true) ∧
      x = t.front ++ (m.type.toList ++ (t.space ++ (m.name.toList ++ b))) := by
  obtain ⟨b, d, v, hbehind, hb, hd, hread⟩ := t.exists_bracket htail
  obtain ⟨w, u, htype, hw, hu⟩ := t.starts
  have hsplit := t.split
  rw [hbehind, ← List.append_assoc, ← List.append_assoc,
    List.append_assoc m.access.toList] at hsplit
  change x ++ c :: rest = t.front ++ _ at hsplit
  cases u with
  | nil =>
    rw [List.append_nil] at htype
    have hword : IsWord m.type.toList := ⟨t.nonempty, htype ▸ hw⟩
    have hrow : Lettered (t.front ++ (m.type.toList ++ (t.space ++ (m.name.toList ++ b)))) :=
      t.lettered_front.append (lettered_pair hword t.isGap_space t.isWord_name hb)
    have hmark : x ++ c :: rest =
        (t.front ++ (m.type.toList ++ (t.space ++ (m.name.toList ++ b)))) ++ d :: v :=
      hsplit.trans (by simp only [List.append_assoc])
    obtain ⟨hx, rfl, rfl⟩ := mark_unique hx hrow (mark_of_bracket hc) (mark_of_bracket hd) hmark
    exact ⟨hword, hread, b, hb, hx⟩
  | cons e u =>
    -- the type would have a mark in it, and that one would stand at the bracket
    have he : e ∈ innerMarks := hu e rfl
    have hinner : ∀ e ∈ innerMarks, (isWord e || isBlank e) = false ∧ e ∉ bracketMarks := by decide
    have hmark : x ++ c :: rest = (t.front ++ w) ++
        e :: (u ++ (t.space ++ (m.name.toList ++ (b ++ d :: v)))) :=
      hsplit.trans (by rw [htype]; simp only [List.append_assoc, List.cons_append])
    have hrow : Lettered (t.front ++ w) :=
      t.lettered_front.append fun c hc => by rw [hw c hc]; rfl
    obtain ⟨_, rfl, _⟩ := mark_unique hx hrow (mark_of_bracket hc) (hinner e he).1 hmark
    exact absurd hc (hinner c he).2

/-- A member is read up to the first bracket. -/
theorem first_bracket (t : MemberText tail s m r) (htail : Bracketed tail) :
    ∃ x c u, s = x ++ c :: u ∧ Bracketless x ∧ c ∈ bracketMarks ∧ tail (c :: u) = some r := by
  obtain ⟨b, c, u, hbehind, hb, hc, hread⟩ := t.exists_bracket htail
  refine ⟨t.front ++ (m.type.toList ++ (t.space ++ (m.name.toList ++ b))), c, u, ?_, ?_, hc, hread⟩
  · refine t.split.trans ?_
    rw [hbehind]
    simp only [front, List.append_assoc]
  · exact t.lettered_front.bracketless.append (t.bracketless.append
      ((lettered_blanks t.isGap_space.2).bracketless.append
        ((lettered_word t.isWord_name).bracketless.append (lettered_blanks hb).bracketless)))

end MemberText

/-- No member begins before a bracket that the tail does not look for. -/
theorem nowhere_member_bracket (htail : Bracketed tail) (hu : Bracketless u) (hc : c ∈ bracketMarks)
    (hnone : tail (c :: rest) = none) :
    Nowhere (Matches (member tail)) before u (c :: rest) := by
  refine nowhere_of_forall fun x v hsplit _ hmatch => ?_
  obtain ⟨⟨m, r⟩, hmember⟩ := Option.isSome_iff_exists.mp hmatch
  obtain ⟨t⟩ := exists_memberText hmember
  -- any member goes on to a bracket, the first one of the text, and fails to read there
  obtain ⟨y, d, z, heq, hy, hd, hread⟩ := t.first_bracket htail
  have hless {s : List Char} (hs : Bracketless s) : ∀ c ∈ s, decide (c ∉ bracketMarks) = true :=
    fun c hc => decide_eq_true (hs c hc)
  have hstop {e : Char} {s : List Char} (he : e ∈ bracketMarks) :
      (e :: s).head?.any (fun c => decide (c ∉ bracketMarks)) = false :=
    decide_eq_false (not_not.mpr he)
  have hv : Bracketless v := fun e he => hu e (by rw [hsplit]; exact List.mem_append_right _ he)
  obtain ⟨_, hrest⟩ := split_unique (hless hv) (hless hy) (hstop hc) (hstop hd) heq
  rw [hrest, hread] at hnone
  exact absurd hnone (by simp)

/-! ## The last two words -/

/-- A row of words with a bracket behind it is read in one way only: the last two words are the type
and the name, and an access word and known words stand before them. -/
theorem member_row {m : MemberDeclaration} (htail : Bracketed tail) (hx : Lettered x)
    (hend : (lastOf none x).any isWord = false) (hw : IsWord w) (hg : IsGap g) (hn : IsWord n)
    (hb : ∀ d ∈ b, isBlank d = true) (hc : c ∈ bracketMarks)
    (h : member tail before (x ++ (w ++ (g ++ (n ++ (b ++ c :: rest))))) = some (m, r)) :
    m.type.toList = w ∧ m.name.toList = n ∧ tail (c :: rest) = some r ∧
      ∃ g', IsGap g' ∧ ∃ ks : Row, ks.Of skippedWords ∧ m.access.toList ∈ accessWords ∧
        x = m.access.toList ++ (g' ++ ks.chars) := by
  have hrow : Lettered (x ++ (w ++ (g ++ (n ++ b)))) := hx.append (lettered_pair hw hg hn hb)
  have htext : x ++ (w ++ (g ++ (n ++ (b ++ c :: rest)))) =
      (x ++ (w ++ (g ++ (n ++ b)))) ++ c :: rest := by
    simp only [List.append_assoc]
  rw [htext] at h
  obtain ⟨t⟩ := exists_memberText h
  obtain ⟨htype, hread, b', hb', hsplit⟩ := t.of_row htail hrow hc
  obtain ⟨hfront, hw', hn'⟩ := last_words_unique hend t.front_ends hw htype hg t.isGap_space hn
    t.isWord_name hb hb' hsplit
  exact ⟨hw'.symm, hn'.symm, hread, t.gap, t.isGap_gap, t.keywords, t.skipped, t.isAccess, hfront⟩

/-- Two words before a bracket are no member: the type or the name is missing. -/
theorem nowhere_member_pair (htail : Bracketed tail) (hw : IsWord w) (hg : IsGap g) (hn : IsWord n)
    (hb : ∀ d ∈ b, isBlank d = true) (hc : c ∈ bracketMarks) :
    Nowhere (Matches (member tail)) before (w ++ (g ++ (n ++ b))) (c :: rest) := by
  refine nowhere_of_forall fun x v hsplit _ hmatch => ?_
  obtain ⟨⟨m, r⟩, hmember⟩ := Option.isSome_iff_exists.mp hmatch
  obtain ⟨t⟩ := exists_memberText hmember
  have hv : Lettered v := fun e he =>
    lettered_pair hw hg hn hb e (by rw [hsplit]; exact List.mem_append_right _ he)
  obtain ⟨htype, _, b', hb', hrow⟩ := t.of_row htail hv hc
  have hfront : (lastOf none (x ++ t.front)).any isWord = false := by
    rw [lastOf_append]
    exact t.front_ends
  have hwords : [] ++ (w ++ (g ++ (n ++ b))) =
      (x ++ t.front) ++ (m.type.toList ++ (t.space ++ (m.name.toList ++ b'))) := by
    rw [List.nil_append, hsplit, List.append_assoc]
    exact congrArg (x ++ ·) hrow
  obtain ⟨hnone, _⟩ := last_words_unique rfl hfront hw htype hg t.isGap_space hn t.isWord_name
    hb hb' hwords
  -- but the access word stands before the type
  have haccess := (List.append_eq_nil_iff.mp (List.append_eq_nil_iff.mp hnone.symm).2).1
  exact (isWord_accessWords _ t.isAccess).1 haccess

end ClassAtlas.Code
