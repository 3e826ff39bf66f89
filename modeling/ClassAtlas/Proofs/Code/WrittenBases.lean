import Mathlib.Data.List.Basic
import ClassAtlas.Code.Bases
import ClassAtlas.Proofs.Text.Keywords
import ClassAtlas.Proofs.Text.Lines

/-!
# Written base lists

A base may be a dotted path, and type arguments may follow it, nested to any depth. The reader
counts the brackets that are open and splits a list only where none is. Balanced arguments leave the
count as it was, whatever it was, so no comma in them splits the list, and the next comma behind
them does. Constraints are cut off first: the word that begins them stands nowhere in a list of
bases.
-/

namespace ClassAtlas.Code

open Text

variable {before : Option Char} {u w g rest : List Char}

/-! ## Bases as they are written -/

/-- Whether angle brackets match, the ones that are open counted. -/
def balanced : Nat → List Char → Bool
  | depth, [] => depth == 0
  | depth, c :: s =>
    if c = '<' then balanced (depth + 1) s
    else if c = '>' then depth != 0 && balanced (depth - 1) s
    else balanced depth s

/-- The runs of word characters in a text. -/
def wordsOf (s : List Char) : List (List Char) := s.splitOnP fun c => !isWord c

/-- A base as it is written in a list: a dotted path, perhaps with type arguments, between blanks.
-/
structure WrittenBase where
  lead : List Char
  qualifiers : List String
  name : String
  arguments : Option (List Char)
  trail : List Char
  isBlank_lead : ∀ c ∈ lead, isBlank c = true
  isBlank_trail : ∀ c ∈ trail, isBlank c = true
  isIdentifier : ∀ n ∈ name :: qualifiers, Text.isIdentifier n.toList = true
  notWhere : ∀ n ∈ name :: qualifiers, n ≠ "where"
  balanced : ∀ s ∈ arguments, Code.balanced 0 s = true
  unconstrained : ∀ s ∈ arguments, "where".toList ∉ wordsOf s

namespace WrittenBase

/-- The names before the last one, each with its dot. -/
def qualifierChars (b : WrittenBase) : List Char := b.qualifiers.flatMap fun q => q.toList ++ ['.']

/-- The dotted path of a base. -/
def pathChars (b : WrittenBase) : List Char := b.qualifierChars ++ b.name.toList

/-- The type arguments of a base, in their brackets. -/
def argumentChars (b : WrittenBase) : List Char := b.arguments.elim [] fun s => '<' :: (s ++ ['>'])

/-- The text of a base. -/
def chars (b : WrittenBase) : List Char := b.lead ++ (b.pathChars ++ (b.argumentChars ++ b.trail))

theorem isWord_name (b : WrittenBase) : ∀ n ∈ b.name :: b.qualifiers, IsWord n.toList :=
  fun n hn => isWord_of_isIdentifier (b.isIdentifier n hn)

theorem blanksEnd_path (b : WrittenBase) (s : List Char) : BlanksEnd (b.pathChars ++ s) := by
  have hword := b.isWord_name
  unfold pathChars qualifierChars
  cases hq : b.qualifiers with
  | nil => exact (hword _ (by simp)).blanksEnd s
  | cons q qs =>
    rw [List.flatMap_cons, List.append_assoc, List.append_assoc, List.append_assoc]
    exact (hword q (by simp [hq])).blanksEnd _

/-- The characters of a path: those of its words, and dots. -/
theorem of_mem_path {b : WrittenBase} {c : Char} (hc : c ∈ b.pathChars) :
    isWord c = true ∨ c = '.' := by
  have hword := b.isWord_name
  unfold pathChars qualifierChars at hc
  rcases List.mem_append.mp hc with hc | hc
  · obtain ⟨q, hq, hc⟩ := List.mem_flatMap.mp hc
    rcases List.mem_append.mp hc with hc | hc
    · exact .inl ((hword q (List.mem_cons_of_mem _ hq)).2 c hc)
    · exact .inr (List.mem_singleton.mp hc)
  · exact .inl ((hword b.name (by simp)).2 c hc)

end WrittenBase

/-- The text of a list of bases, with commas between them. -/
def basesChars (b : WrittenBase) (bs : List WrittenBase) : List Char :=
  b.chars ++ bs.flatMap fun q => ',' :: q.chars

/-- The text of the constraints behind a list of bases, if there are any. -/
def constraintChars : Option (List Char) → List Char
  | none => []
  | some s => ' ' :: ("where".toList ++ ' ' :: s)

/-- Blanks before a list belong to its first base. -/
theorem trimStart_bases (b : WrittenBase) (bs : List WrittenBase) (s : List Char) :
    ∃ b' : WrittenBase, b'.name = b.name ∧
      trimStart (basesChars b bs ++ s) = basesChars b' bs ++ s := by
  refine ⟨{ b with lead := [], isBlank_lead := by simp }, rfl, ?_⟩
  unfold basesChars WrittenBase.chars
  simp only [List.append_assoc]
  rw [trimStart_append b.isBlank_lead]
  exact trimStart_of_ends (b.blanksEnd_path _)

theorem basesChars_ne_nil (b : WrittenBase) (bs : List WrittenBase) : basesChars b bs ≠ [] := by
  have hname := (b.isWord_name b.name (by simp)).1
  unfold basesChars WrittenBase.chars WrittenBase.pathChars
  simp [hname]

/-! ## Splitting -/

/-- The text is split nowhere: it has no bracket, and no comma outside brackets. -/
theorem splitTop_append {depth : Nat}
    (hu : ∀ c ∈ u, c ≠ '<' ∧ c ≠ '>' ∧ (c = ',' → depth ≠ 0)) (s : List Char) :
    splitTop depth (u ++ s) = (splitTop depth s).modifyHead (u ++ ·) := by
  induction u with
  | nil =>
    show splitTop depth s = (splitTop depth s).modifyHead fun r => r
    cases splitTop depth s <;> rfl
  | cons c u ih =>
    obtain ⟨hopen, hclose, hcomma⟩ := hu c (by simp)
    have hnot : ¬ (c = ',' ∧ depth = 0) := fun h => hcomma h.1 h.2
    rw [List.cons_append, splitTop, if_neg hnot]
    simp only [hopen, hclose, if_false]
    rw [ih fun d hd => hu d (List.mem_cons_of_mem _ hd), List.modifyHead_modifyHead]
    rfl

theorem splitTop_blanks (hg : ∀ c ∈ g, isBlank c = true) (depth : Nat) (s : List Char) :
    splitTop depth (g ++ s) = (splitTop depth s).modifyHead (g ++ ·) := by
  refine splitTop_append ?_ s
  intro c hc
  have hblank := hg c hc
  refine ⟨?_, ?_, ?_⟩ <;> rintro rfl <;> exact absurd hblank (by decide)

/-- Balanced text is split nowhere where a bracket is open, and does not change how many are. -/
theorem splitTop_balanced {depth : Nat} (h : balanced depth u = true) (s : List Char) :
    splitTop (depth + 1) (u ++ s) = (splitTop 1 s).modifyHead (u ++ ·) := by
  -- over any depth within the brackets; the outer one keeps commas from counting
  induction u generalizing depth with
  | nil =>
    obtain rfl : depth = 0 := by simpa [balanced] using h
    exact splitTop_append (u := []) (by simp) s
  | cons c u ih =>
    have hnot : ¬ (c = ',' ∧ depth + 1 = 0) := fun hcomma => absurd hcomma.2 (by simp)
    rw [List.cons_append, splitTop, if_neg hnot]
    dsimp only
    unfold balanced at h
    by_cases hopen : c = '<'
    · rw [if_pos hopen] at h ⊢
      rw [ih h, List.modifyHead_modifyHead]
      rfl
    · rw [if_neg hopen] at h ⊢
      by_cases hclose : c = '>'
      · rw [if_pos hclose] at h ⊢
        obtain ⟨hdepth, hrest⟩ := Bool.and_eq_true_iff.mp h
        obtain ⟨d, rfl⟩ : ∃ d, depth = d + 1 :=
          Nat.exists_eq_succ_of_ne_zero (by simpa using hdepth)
        rw [Nat.add_sub_cancel] at hrest ⊢
        rw [ih hrest, List.modifyHead_modifyHead]
        rfl
      · rw [if_neg hclose] at h ⊢
        rw [ih h, List.modifyHead_modifyHead]
        rfl

theorem splitTop_writtenArguments (b : WrittenBase) (s : List Char) :
    splitTop 0 (b.argumentChars ++ s) = (splitTop 0 s).modifyHead (b.argumentChars ++ ·) := by
  unfold WrittenBase.argumentChars
  cases harguments : b.arguments with
  | none => exact splitTop_append (u := []) (by simp) s
  | some t =>
    -- the two outer brackets, around a text that is balanced
    have hopen (r : List Char) :
        splitTop 0 ('<' :: r) = (splitTop 1 r).modifyHead ('<' :: ·) := by
      rw [splitTop]
      simp
    have hclose : splitTop 1 ('>' :: s) = (splitTop 0 s).modifyHead ('>' :: ·) := by
      rw [splitTop]
      simp
    rw [Option.elim_some, List.cons_append, List.append_assoc, List.singleton_append, hopen,
      splitTop_balanced (b.balanced t harguments), hclose, List.modifyHead_modifyHead,
      List.modifyHead_modifyHead]
    congr 1
    funext r
    simp

/-- A base is split nowhere. -/
theorem splitTop_writtenBase (b : WrittenBase) (s : List Char) :
    splitTop 0 (b.chars ++ s) = (splitTop 0 s).modifyHead (b.chars ++ ·) := by
  have hpath : ∀ c ∈ b.pathChars, c ≠ '<' ∧ c ≠ '>' ∧ (c = ',' → (0 : Nat) ≠ 0) := by
    intro c hc
    rcases WrittenBase.of_mem_path hc with hword | rfl
    · refine ⟨?_, ?_, ?_⟩ <;> rintro rfl <;> exact absurd hword (by decide)
    · decide
  unfold WrittenBase.chars
  rw [List.append_assoc, List.append_assoc, List.append_assoc, splitTop_blanks b.isBlank_lead,
    splitTop_append hpath, splitTop_writtenArguments, splitTop_blanks b.isBlank_trail]
  simp only [List.modifyHead_modifyHead]
  congr 1
  funext r
  simp

/-! ## Names -/

theorem lastName_path (b : WrittenBase) : lastName b.pathChars = b.name.toList := by
  have hplain : ∀ c ∈ b.name.toList.reverse, decide (c ≠ '.') = true := by
    intro c hc
    have hword := (b.isWord_name b.name (by simp)).2 c (List.mem_reverse.mp hc)
    refine decide_eq_true ?_
    rintro rfl
    exact absurd hword (by decide)
  -- the last name begins at the start of the path or behind a dot
  have hdot : b.qualifierChars.reverse.head?.any (fun c => decide (c ≠ '.')) = false := by
    unfold WrittenBase.qualifierChars
    rcases List.eq_nil_or_concat' b.qualifiers with hnil | ⟨qs, q, hq⟩
    · rw [hnil]
      rfl
    · rw [hq]
      simp
  unfold lastName WrittenBase.pathChars
  rw [List.reverse_append, takeWhile_append_of_ends hplain hdot, List.reverse_reverse]

theorem trim_path (b : WrittenBase) {l : List Char} (hl : ∀ c ∈ l, isBlank c = true)
    (hg : ∀ c ∈ g, isBlank c = true) : trim (l ++ (b.pathChars ++ g)) = b.pathChars := by
  unfold trim
  rw [trimStart_append hl, trimStart_of_ends (b.blanksEnd_path g), trimEnd_append_blanks _ hg]
  exact trimEnd_append_word _ (b.isWord_name b.name (by simp))

/-- What stands before the type arguments of a base. -/
theorem takeWhile_writtenBase (b : WrittenBase) (hg : ∀ c ∈ g, isBlank c = true) :
    ∃ h, (∀ c ∈ h, isBlank c = true) ∧
      (b.chars ++ g).takeWhile (fun c => decide (c ≠ '<')) = b.lead ++ (b.pathChars ++ h) := by
  have hblank {c : Char} (hc : isBlank c = true) : decide (c ≠ '<') = true := by
    refine decide_eq_true ?_
    rintro rfl
    exact absurd hc (by decide)
  have hpath : ∀ c ∈ b.pathChars, decide (c ≠ '<') = true := by
    intro c hc
    refine decide_eq_true ?_
    rintro rfl
    exact absurd (WrittenBase.of_mem_path hc) (by decide)
  have hchars : ∀ h, (∀ c ∈ h, isBlank c = true) → ∀ c ∈ b.lead ++ (b.pathChars ++ h),
      decide (c ≠ '<') = true := fun h hh =>
    List.forall_mem_append.mpr ⟨fun c hc => hblank (b.isBlank_lead c hc),
      List.forall_mem_append.mpr ⟨hpath, fun c hc => hblank (hh c hc)⟩⟩
  unfold WrittenBase.chars WrittenBase.argumentChars
  cases harguments : b.arguments with
  | none =>
    -- without type arguments the blanks behind the path are taken too
    have hbehind : ∀ c ∈ b.trail ++ g, isBlank c = true :=
      List.forall_mem_append.mpr ⟨b.isBlank_trail, hg⟩
    have htake := takeWhile_append_of_ends (s := []) (hchars _ hbehind) rfl
    refine ⟨b.trail ++ g, hbehind, ?_⟩
    simpa using htake
  | some t =>
    have htake := takeWhile_append_of_ends (s := '<' :: (t ++ '>' :: (b.trail ++ g)))
      (hchars [] (by simp)) (by simp)
    refine ⟨[], by simp, ?_⟩
    simpa using htake

theorem baseName?_writtenBase (b : WrittenBase) (hg : ∀ c ∈ g, isBlank c = true) :
    baseName? (b.chars ++ g) = some b.name := by
  obtain ⟨h, hh, htake⟩ := takeWhile_writtenBase b hg
  unfold baseName?
  rw [htake, trim_path b b.isBlank_lead hh, lastName_path]
  dsimp only
  rw [if_pos (b.isIdentifier b.name (by simp)), String.ofList_toList]

/-- The names in the parts of a list, with blanks behind the last one. -/
theorem filterMap_splitTop_bases (b : WrittenBase) (bs : List WrittenBase)
    (hg : ∀ c ∈ g, isBlank c = true) :
    (splitTop 0 (basesChars b bs ++ g)).filterMap baseName? = (b :: bs).map (·.name) := by
  unfold basesChars
  induction bs generalizing b with
  | nil =>
    have hone : splitTop 0 g = [g] := by
      have happend := splitTop_blanks hg 0 []
      rwa [List.append_nil, show splitTop 0 [] = [[]] from rfl, List.modifyHead_cons,
        List.append_nil] at happend
    rw [List.flatMap_nil, List.append_nil, splitTop_writtenBase, hone]
    simp [baseName?_writtenBase b hg]
  | cons c bs ih =>
    -- between two bases stands a comma at the top, where the list is split
    have hcomma (r : List Char) : splitTop 0 (',' :: r) = [] :: splitTop 0 r := by
      rw [splitTop]
      simp
    have hfirst := baseName?_writtenBase b (g := []) (by simp)
    have hrest := ih c
    rw [List.append_assoc, splitTop_writtenBase, List.flatMap_cons, List.cons_append,
      List.cons_append, hcomma, List.modifyHead_cons, List.filterMap_cons_some hfirst, hrest]
    rfl

/-! ## Constraints -/

theorem matches_whereWord {s : List Char} (h : Matches whereWord before s) :
    isBoundary before s.head? = true ∧ ∃ r, s = "where".toList ++ r ∧ WordEnds r := by
  obtain ⟨⟨_, r⟩, heq⟩ := Option.isSome_iff_exists.mp h
  unfold whereWord at heq
  simp only [guard_eq_some, Option.bind_eq_bind, Option.bind_eq_some_iff,
    literal_eq_some_iff] at heq
  obtain ⟨_, hb, t, ht, _, hend, _⟩ := heq
  exact ⟨hb, t, ht, by simpa [WordEnds] using hend⟩

theorem lexical_whereWord : Lexical (Matches whereWord) := by
  intro b s h
  obtain ⟨hb, r, rfl, _⟩ := matches_whereWord h
  exact ⟨hb, by rfl⟩

theorem nowhere_whereWord {name : String} (hname : IsWord name.toList) (hne : name ≠ "where")
    (hr : WordEnds rest) : Nowhere (Matches whereWord) before name.toList rest := by
  refine nowhere_word lexical_whereWord hname ?_
  intro h
  apply hne
  obtain ⟨_, r, heq, hend⟩ := matches_whereWord h
  have hwhere : IsWord "where".toList := by decide +kernel
  exact String.toList_inj.mp (word_split_unique hname.2 hwhere.2 hr hend heq).1

theorem matches_where {s : List Char} (hb : before.any isWord = false)
    (hs : WordEnds s) : Matches whereWord before ("where".toList ++ s) := by
  have hword : IsWord "where".toList := by decide +kernel
  have hend : (!s.head?.any isWord) = true := by rw [hs]; rfl
  unfold Matches whereWord
  simp only [guard, isBoundary_word hb hword s, literal_append, hend, if_true, Option.pure_def,
    Option.bind_eq_bind, Option.bind_some, Option.isSome_some]

/-- A word that stands whole in a text is one of its words. -/
theorem mem_wordsOf (hw : IsWord w) {x y : List Char}
    (hx : (lastOf before x).any isWord = false) (hy : WordEnds y) :
    w ∈ wordsOf (x ++ (w ++ y)) := by
  have hall : ∀ c ∈ w, (!isWord c) = false := fun c hc => by rw [hw.2 c hc]; rfl
  -- first with nothing before the word; whatever comes before it ends in a mark
  have hbehind : w ∈ wordsOf (w ++ y) := by
    unfold wordsOf
    cases y with
    | nil => rw [List.append_nil, List.splitOnP_eq_singleton hall]; simp
    | cons d y =>
      have hd : isWord d = false := hy
      rw [List.splitOnP_append_cons_of_forall_mem hall _ (by simp [hd])]
      exact List.mem_cons_self ..
  rcases List.eq_nil_or_concat' x with rfl | ⟨x, d, rfl⟩
  · exact hbehind
  · rw [lastOf_append] at hx
    have hd : isWord d = false := hx
    unfold wordsOf at hbehind ⊢
    rw [List.append_assoc, List.singleton_append, List.splitOnP_append_cons _ _ (by simp [hd])]
    exact List.mem_append_right _ hbehind

/-- A property that holds only where one of some words stands whole holds nowhere in a text that has
none of them as a word. -/
theorem nowhere_of_wordsOf {P : PlaceProp} {words : List (List Char)}
    (hP : ∀ b s, P b s → isBoundary b s.head? = true ∧ ∃ w ∈ words, ∃ r, s = w ++ r ∧ WordEnds r)
    (hwords : ∀ w ∈ words, IsWord w) (hu : ∀ w ∈ words, w ∉ wordsOf u) (hr : WordEnds rest) :
    Nowhere P before u rest := by
  refine nowhere_of_forall fun x v hsplit hv hplace => ?_
  obtain ⟨hboundary, w, hw, r, heq, hend⟩ := hP _ _ hplace
  have hword := hwords w hw
  have hx : (lastOf before x).any isWord = false :=
    hword.before_of_isBoundary (heq ▸ hboundary)
  -- the word ends within the text, since no word character follows the text
  obtain ⟨y, rfl, rfl⟩ : ∃ y, v = w ++ y ∧ r = y ++ rest := by
    rcases List.append_eq_append_iff.mp heq with ⟨t, ht, hrest⟩ | ⟨t, ht, hr'⟩
    · cases t with
      | nil => exact ⟨[], by simpa using ht.symm, by simpa using hrest.symm⟩
      | cons d t =>
        have hd : isWord d = true := hword.2 d (by rw [ht]; simp)
        rw [hrest, List.cons_append, wordEnds_cons, hd] at hr
        exact absurd hr (by simp)
    · exact ⟨t, ht, hr'⟩
  have hy : WordEnds y := by
    cases y with
    | nil => rfl
    | cons d y => exact hend
  refine hu w hw ?_
  rw [hsplit]
  exact mem_wordsOf hword hx hy

/-- The word that begins constraints stands nowhere in a text that does not have it as a word. -/
theorem nowhere_whereWord_text (hu : "where".toList ∉ wordsOf u) (hr : WordEnds rest) :
    Nowhere (Matches whereWord) before u rest := by
  have hword : ∀ w ∈ ["where".toList], IsWord w := by decide +kernel
  refine nowhere_of_wordsOf ?_ hword (by simpa using hu) hr
  intro b s hmatch
  obtain ⟨hboundary, r, rfl, hend⟩ := matches_whereWord hmatch
  exact ⟨hboundary, _, by simp, r, rfl, hend⟩

theorem nowhere_whereWord_path (b : WrittenBase) (hr : WordEnds rest) :
    Nowhere (Matches whereWord) before b.pathChars rest := by
  have hname {n : String} (hn : n ∈ b.name :: b.qualifiers) {c : Option Char} {r : List Char}
      (hr : WordEnds r) : Nowhere (Matches whereWord) c n.toList r :=
    nowhere_whereWord (b.isWord_name n hn) (b.notWhere n hn) hr
  -- each qualifier ends at its dot, so `where` could only be the whole of one
  have hqualifiers : ∀ qs : List String, (∀ q ∈ qs, q ∈ b.qualifiers) → ∀ c r,
      Nowhere (Matches whereWord) c (qs.flatMap fun q => q.toList ++ ['.']) r := by
    intro qs hqs
    induction qs with
    | nil => exact fun _ _ => trivial
    | cons q qs ih =>
      intro c r
      have hdot : WordEnds (['.'] ++ ((qs.flatMap fun q => q.toList ++ ['.']) ++ r)) :=
        (by decide : isWord '.' = false)
      rw [List.flatMap_cons, List.append_assoc]
      refine Nowhere.append (hname (List.mem_cons_of_mem _ (hqs q (by simp))) hdot) ?_
      exact (nowhere_mark lexical_whereWord.wordy (by decide)).mpr
        (ih (fun x hx => hqs x (List.mem_cons_of_mem _ hx)) _ r)
  exact Nowhere.append (hqualifiers _ (fun _ hq => hq) _ _) (hname (by simp) hr)

theorem nowhere_whereWord_written (b : WrittenBase) (hr : WordEnds rest) :
    Nowhere (Matches whereWord) before b.chars rest := by
  have hwordy := lexical_whereWord.wordy
  have hblanks {g : List Char} (hg : ∀ c ∈ g, isBlank c = true) {c : Option Char} {r : List Char} :
      Nowhere (Matches whereWord) c g r :=
    nowhere_blanks hwordy hg
  unfold WrittenBase.chars WrittenBase.argumentChars
  -- blanks, the path, the arguments, blanks
  refine Nowhere.append (hblanks b.isBlank_lead) (Nowhere.append (nowhere_whereWord_path b ?_)
    (Nowhere.append ?_ (hblanks b.isBlank_trail)))
  · cases b.arguments with
    | none => exact wordEnds_blanks_append b.isBlank_trail hr
    | some t => exact (by decide : isWord '<' = false)
  · cases harguments : b.arguments with
    | none => trivial
    | some t =>
      refine (nowhere_mark hwordy (by decide)).mpr (Nowhere.append ?_ ?_)
      · exact nowhere_whereWord_text (b.unconstrained t harguments)
          (by decide : isWord '>' = false)
      · exact nowhere_marks hwordy (by decide)

theorem nowhere_whereWord_bases (b : WrittenBase) (bs : List WrittenBase) (hr : WordEnds rest) :
    Nowhere (Matches whereWord) before (basesChars b bs) rest := by
  unfold basesChars
  induction bs generalizing b before with
  | nil =>
    rw [List.flatMap_nil, List.append_nil]
    exact nowhere_whereWord_written b hr
  | cons c bs ih =>
    rw [List.flatMap_cons, List.cons_append]
    refine Nowhere.append (nowhere_whereWord_written b (by decide : isWord ',' = false)) ?_
    exact (nowhere_mark lexical_whereWord.wordy (by decide)).mpr (ih c)

/-- The names of a written list, up to the word that begins constraints or to its end. -/
theorem baseNames_until (b : WrittenBase) (bs : List WrittenBase)
    (hg : ∀ c ∈ g, isBlank c = true) (hends : WordEnds (g ++ rest))
    (hrest : rest = [] ∨ Matches whereWord (lastOf none (basesChars b bs ++ g)) rest) :
    baseNames (basesChars b bs ++ g ++ rest) = (b :: bs).map (·.name) := by
  have hlist : Nowhere (Matches whereWord) none (basesChars b bs ++ g) rest :=
    Nowhere.append (nowhere_whereWord_bases b bs hends)
      (nowhere_blanks lexical_whereWord.wordy hg)
  unfold baseNames
  rw [untilFirst_of_match hlist hrest]
  exact filterMap_splitTop_bases b bs hg

theorem baseNames_blanks (b : WrittenBase) (bs : List WrittenBase)
    (hg : ∀ c ∈ g, isBlank c = true) :
    baseNames (basesChars b bs ++ g) = (b :: bs).map (·.name) := by
  have hread : baseNames (basesChars b bs ++ g ++ []) = (b :: bs).map (·.name) :=
    baseNames_until b bs hg (wordEnds_blanks_append hg wordEnds_nil) (.inl rfl)
  rwa [List.append_nil] at hread

/-- **The names of a written list.** -/
theorem baseNames_bases (b : WrittenBase) (bs : List WrittenBase)
    (constraint : Option (List Char)) :
    baseNames (basesChars b bs ++ constraintChars constraint) = (b :: bs).map (·.name) := by
  cases constraint with
  | none => exact baseNames_blanks b bs (by simp [constraintChars])
  | some s =>
    -- the space before the constraints belongs to what is read
    have hwhere : Matches whereWord (lastOf none (basesChars b bs ++ [' ']))
        ("where".toList ++ ' ' :: s) := by
      refine matches_where ?_ (wordEnds_space s)
      rw [lastOf_append]
      exact (by decide : isWord ' ' = false)
    rw [constraintChars, List.append_cons]
    exact baseNames_until b bs isBlank_space (wordEnds_space _) (.inr hwhere)

end ClassAtlas.Code
