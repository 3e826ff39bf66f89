import ClassAtlas.Proofs.Code.Braces
import ClassAtlas.Proofs.Declared

/-!
# What is declared in a source

Three patterns of the reader look for the declarations of classes and interfaces in the whole text:
for their names, their base lists and their bodies. Each matches only where a class or interface is
declared, so what it finds in a source is told by what it does at the keyword of each type. One
induction over the tree serves all three.
-/

namespace ClassAtlas.Code

open Text

variable {α : Type} {p : Pattern α} {before : Option Char} {rest : List Char}

/-- The pattern matches only where a class or interface is declared. -/
def Declarative (p : Pattern α) : Prop := ∀ b s, Matches p b s → Heads typeWords b s

theorem Declarative.nowhere {u : List Char} (hp : Declarative p)
    (h : Silent typeWords before u rest) : Nowhere (Matches p) before u rest :=
  Nowhere.mono h hp

theorem Declarative.lexical (hp : Declarative p) : Lexical (Matches p) :=
  fun b s h => lexical_heads isWord_typeWords b s (hp b s h)

/-! ## One declaration -/

section Heading

variable {h : Heading}

theorem isWord_word (sort : TypeSort) : IsWord sort.word := by
  cases sort <;> decide +kernel

theorem tail_markFollows (hh : h.WellFormed) (s : List Char) :
    MarkFollows (h.tailChars ++ '{' :: s) := by
  unfold Heading.tailChars Heading.baseChars
  split
  · exact markFollows_append hh.gap (by decide) (by decide) s
  · exact ⟨by rfl, by rfl⟩

/-- Whatever stands behind the keyword of a type declares nothing. -/
theorem silent_name {words : List (List Char)} (hwords : ∀ w ∈ words, IsWord w)
    (hh : h.WellFormed) : Silent words before (h.name.toList ++ h.tailChars) ('{' :: rest) :=
  Nowhere.append (silent_before_mark hwords hh.name (tail_markFollows hh rest))
    (silent_tailChars hwords hh)

/-- The text from the keyword of a type on. -/
def Heading.keywordChars (h : Heading) : List Char :=
  h.sort.word ++ ' ' :: (h.name.toList ++ h.tailChars)

/-- Nothing is found before the keyword. -/
theorem occurrences_lead (hp : Declarative p) (hh : h.WellFormed) (rest : List Char) :
    occurrencesFrom p before (h.lead ++ (h.bareChars ++ rest)) =
      occurrencesFrom p (some ' ') (h.keywordChars ++ rest) := by
  have hpublic : "public".toList ∉ typeWords := by decide +kernel
  have hword : IsWord "public".toList := by decide +kernel
  rw [occurrencesFrom_of_nowhere (hp.nowhere (silent_blanks isWord_typeWords hh.lead))]
  rw [show h.bareChars ++ rest = "public".toList ++ ([' '] ++ (h.keywordChars ++ rest)) from
    List.append_assoc _ _ _]
  have hends : WordEnds ([' '] ++ (h.keywordChars ++ rest)) := wordEnds_space _
  rw [occurrencesFrom_of_nowhere (hp.nowhere (silent_word isWord_typeWords hword hpublic hends)),
    occurrencesFrom_of_nowhere (hp.nowhere (silent_marks isWord_typeWords (by decide)))]
  rfl

/-- A type that the pattern does not match adds nothing. -/
theorem occurrences_heading_none (hp : Declarative p) (hh : h.WellFormed)
    (hnone : ¬ Matches p (some ' ') (h.keywordChars ++ '{' :: rest)) :
    occurrencesFrom p before (h.lead ++ (h.bareChars ++ '{' :: rest)) =
      occurrencesFrom p (some '{') rest := by
  have hkeyword : Nowhere (Matches p) (some ' ') h.keywordChars ('{' :: rest) := by
    unfold Heading.keywordChars at hnone ⊢
    rw [List.append_assoc] at hnone
    refine Nowhere.append (nowhere_word hp.lexical (isWord_word h.sort) hnone) ?_
    exact hp.nowhere ((silent_mark isWord_typeWords (by decide)).mpr
      (silent_name isWord_typeWords hh))
  have hbrace : Nowhere (Matches p) (lastOf (some ' ') h.keywordChars) ['{'] rest :=
    hp.nowhere (silent_marks isWord_typeWords (by decide))
  rw [occurrences_lead hp hh, occurrencesFrom_of_nowhere hkeyword,
    show '{' :: rest = ['{'] ++ rest from rfl, occurrencesFrom_of_nowhere hbrace]
  rfl

/-- A type that the pattern matches adds one value. What is read ends before or behind the brace,
and what is left of the header is silent. -/
theorem occurrences_heading_found (hp : Declarative p) (hh : h.WellFormed) {a : α}
    {u v : List Char} (hsplit : h.keywordChars ++ ['{'] = u ++ v) (hu : u ≠ [])
    (hfound : p (some ' ') (u ++ (v ++ rest)) = some (a, v ++ rest))
    (hv : Silent typeWords (lastOf (some ' ') u) v rest) :
    occurrencesFrom p before (h.lead ++ (h.bareChars ++ '{' :: rest)) =
      a :: occurrencesFrom p (some '{') rest := by
  have htext : h.keywordChars ++ '{' :: rest = u ++ (v ++ rest) := by
    rw [← List.append_assoc, ← hsplit]
    simp
  have hlast : lastOf (lastOf (some ' ') u) v = some '{' := by
    rw [← lastOf_append, ← hsplit, lastOf_append]
    rfl
  rw [occurrences_lead hp hh, htext, occurrencesFrom_of_found hfound hu,
    occurrencesFrom_of_nowhere (hp.nowhere hv), hlast]

end Heading

/-! ## All declarations -/

theorem nowhere_close (hp : Declarative p) {h : Heading} (hh : h.WellFormed) :
    Nowhere (Matches p) before (h.close ++ ['}']) rest := by
  refine hp.nowhere (Nowhere.append (silent_blanks isWord_typeWords hh.close) ?_)
  exact silent_marks isWord_typeWords (by decide)

theorem nowhere_declared_member (hp : Declarative p) {m : SourceMember} (hm : m.WellFormed) :
    Nowhere (Matches p) before m.chars rest := by
  refine hp.nowhere (Nowhere.append (silent_blanks isWord_typeWords hm.lead) ?_)
  exact Silent.mono (silent_member hm) typeWords_subset

/-- What a pattern finds in a source is what it finds at each type. -/
theorem occurrences_source (hp : Declarative p) {value : Heading → Source → Option α}
    (hstep : ∀ (h : Heading) (inner : Source) before rest, h.WellFormed → inner.WellFormed →
      occurrencesFrom p before
          (h.lead ++ (h.bareChars ++ '{' :: (inner.chars ++ (h.close ++ '}' :: rest)))) =
        (value h inner).toList ++
          occurrencesFrom p (some '{') (inner.chars ++ (h.close ++ '}' :: rest)))
    {s : Source} (hs : s.WellFormed) :
    occurrencesFrom p before (s.chars ++ rest) =
      s.types.filterMap (fun t => value t.1 t.2) ++
        occurrencesFrom p (lastOf before s.chars) rest := by
  induction s generalizing before rest with
  | nil => rfl
  | member m next ih =>
    obtain ⟨hm, hnext⟩ := hs
    rw [Source.chars, List.append_assoc,
      occurrencesFrom_of_nowhere (nowhere_declared_member hp hm), ih hnext, lastOf_append]
    rfl
  | type h inner next ihInner ihNext =>
    obtain ⟨hh, hinner, hnext⟩ := hs
    have hclose : h.close ++ '}' :: (next.chars ++ rest) =
        (h.close ++ ['}']) ++ (next.chars ++ rest) := by simp
    have htypes : (Source.type h inner next).types.filterMap (fun t => value t.1 t.2) =
        (value h inner).toList ++ (inner.types.filterMap (fun t => value t.1 t.2) ++
          next.types.filterMap fun t => value t.1 t.2) := by
      rw [Source.types, List.filterMap_cons, ← List.filterMap_append]
      cases value h inner <;> rfl
    have hlast : lastOf before (Source.type h inner next).chars =
        lastOf (lastOf (lastOf (some '{') inner.chars) (h.close ++ ['}'])) next.chars := by
      simp [Source.chars]
    -- the type itself, then what is inside it, then its closing brace, then what follows
    rw [chars_type_append, hstep h inner before (next.chars ++ rest) hh hinner, ihInner hinner,
      hclose, occurrencesFrom_of_nowhere (nowhere_close hp hh), ihNext hnext, htypes, hlast,
      List.append_assoc, List.append_assoc]

/-- The text of a source, with a silent text behind it, and with distinct names of types. -/
structure Renders (text : String) (s : Source) : Prop where
  wellFormed : s.WellFormed
  nodup : (s.types.map (·.1.name)).Nodup
  chars : ∃ trailer, text.toList = s.chars ++ trailer ∧
    Silent typeWords (lastOf none s.chars) trailer []

variable {text : String} {s : Source}

theorem occurrences_text (hp : Declarative p) {value : Heading → Source → Option α}
    (hstep : ∀ (h : Heading) (inner : Source) before rest, h.WellFormed → inner.WellFormed →
      occurrencesFrom p before
          (h.lead ++ (h.bareChars ++ '{' :: (inner.chars ++ (h.close ++ '}' :: rest)))) =
        (value h inner).toList ++
          occurrencesFrom p (some '{') (inner.chars ++ (h.close ++ '}' :: rest)))
    (hs : Renders text s) :
    occurrences p text.toList = s.types.filterMap (fun t => value t.1 t.2) := by
  obtain ⟨trailer, htext, hsilent⟩ := hs.chars
  have htrailer := occurrencesFrom_of_nowhere (hp.nowhere hsilent)
  rw [List.append_nil] at htrailer
  rw [show occurrences p text.toList = occurrencesFrom p none text.toList from rfl, htext,
    occurrences_source hp hstep hs.wellFormed, htrailer]
  simp

/-! ## Names -/

theorem declarative_declared {sort : TypeSort} (hsort : sort.word ∈ typeWords) :
    Declarative (declared sort.word) := fun _ _ h =>
  (heads_of_declared h).mono fun w hw => by rwa [List.mem_singleton.mp hw]

theorem word_injective {sort sort' : TypeSort} (h : sort.word = sort'.word) : sort = sort' := by
  cases sort <;> cases sort' <;> first | rfl | exact absurd h (by decide +kernel)

theorem declared_step {sort : TypeSort} (hsort : sort.word ∈ typeWords) {h : Heading}
    (hh : h.WellFormed) (rest : List Char) :
    occurrencesFrom (declared sort.word) before (h.lead ++ (h.bareChars ++ '{' :: rest)) =
      (if h.sort = sort then some h.name.toList else none).toList ++
        occurrencesFrom (declared sort.word) (some '{') rest := by
  have hp := declarative_declared hsort
  split
  · rename_i heq
    subst heq
    refine occurrences_heading_found hp hh (u := h.sort.word ++ ' ' :: h.name.toList)
      (v := h.tailChars ++ ['{']) (by simp [Heading.keywordChars]) (by simp) ?_ ?_
    · rw [List.append_assoc, List.append_assoc, List.cons_append]
      exact declared_word rfl (isWord_word h.sort) hh.name (tail_markFollows hh rest).1
    · exact Nowhere.append (silent_tailChars isWord_typeWords hh)
        (silent_marks isWord_typeWords (by decide))
  · rename_i hne
    -- anything found stands behind the reader's keyword, and the heading has another one
    refine occurrences_heading_none hp hh fun hmatch => hne ?_
    obtain ⟨⟨name, r⟩, heq⟩ := Option.isSome_iff_exists.mp hmatch
    obtain ⟨_, t, ht, hgap, _⟩ := declared_eq_some_iff.mp heq
    unfold Heading.keywordChars at ht
    rw [List.append_assoc] at ht
    exact word_injective (word_split_unique (isWord_word h.sort).2 (isWord_word sort).2
      (wordEnds_space _) (wordEnds_of_blanks hgap) ht).1

theorem occurrences_declared {sort : TypeSort} (hsort : sort.word ∈ typeWords)
    (hs : Renders text s) :
    occurrences (declared sort.word) text.toList =
      (s.sorted sort).map fun t => t.1.name.toList := by
  rw [occurrences_text (declarative_declared hsort)
    (fun h inner before rest hh _ => declared_step hsort hh _) hs]
  unfold Source.sorted
  induction s.types with
  | nil => rfl
  | cons t ts ih =>
    by_cases h : t.1.sort = sort <;> simp [h, ih]

theorem nodup_names (hs : Renders text s) (sort : TypeSort) : (s.names sort).Nodup := by
  refine hs.nodup.sublist ?_
  exact List.Sublist.map _ List.filter_sublist

/-- The names that are declared are those of the types, in the order of the text. -/
theorem declaredNames_source {keyword : String} {sort : TypeSort}
    (hkeyword : keyword.toList = sort.word) (hsort : sort.word ∈ typeWords)
    (hs : Renders text s) : declaredNames keyword text = s.names sort := by
  unfold declaredNames
  rw [hkeyword, occurrences_declared hsort hs, List.map_map,
    show (String.ofList ∘ fun t : Heading × Source => t.1.name.toList) = (·.1.name) from
      funext fun t => String.ofList_toList]
  exact eraseDups_of_nodup (nodup_names hs sort)

/-! ## Bodies -/

/-- A name after blanks. -/
theorem gapAndName_eq_some_iff {name s r : List Char} (hname : IsWord name) :
    gapAndName name s = some r ↔ ¬ BlanksEnd s ∧ trimStart s = name ++ r := by
  -- a name begins with no blank, so all blanks that are found stand before it
  have hown : name.takeWhile isBlank = [] := by
    have hends := hname.blanksEnd []
    rw [List.append_nil] at hends
    exact takeWhile_append_of_ends (w := []) (by simp) hends
  have hdrop : s.drop (s.takeWhile isBlank).length = trimStart s := by
    calc s.drop (s.takeWhile isBlank).length
        = (s.takeWhile isBlank ++ s.dropWhile isBlank).drop (s.takeWhile isBlank).length := by
          rw [List.takeWhile_append_dropWhile]
      _ = trimStart s := List.drop_left
  have hblanks : 0 < (s.takeWhile isBlank).length ↔ ¬ BlanksEnd s := by
    cases s with
    | nil => simp
    | cons c s => cases hc : isBlank c <;> simp [hc]
  unfold gapAndName
  simp only [hown, List.length_nil, Nat.sub_zero, hdrop]
  split
  · rename_i hlen
    rw [literal_eq_some_iff]
    exact ⟨fun h => ⟨hblanks.mp hlen, h⟩, fun h => h.2⟩
  · rename_i hlen
    exact ⟨fun h => absurd h (by simp), fun h => absurd (hblanks.mpr h.1) hlen⟩

/-- Where a body begins, its type is declared. -/
theorem of_block {name body s r : List Char} (hname : IsWord name)
    (h : block name before s = some (body, r)) :
    isBoundary before s.head? = true ∧ ∃ w ∈ typeWords, ∃ t u, s = w ++ t ∧ ¬ BlanksEnd t ∧
      trimStart t = name ++ u ∧ WordEnds u := by
  unfold block at h
  simp only [guard_eq_some, Option.bind_eq_bind, Option.bind_eq_some_iff] at h
  obtain ⟨_, hb, ⟨w, t⟩, hone, u, hgap, _, hend, _⟩ := h
  obtain ⟨hw, hs⟩ := oneOf_eq_some hone
  obtain ⟨hblank, htrim⟩ := (gapAndName_eq_some_iff hname).mp hgap
  rw [← lastOf_eq_getLastD hname.1 none] at hend
  exact ⟨hb, w, hw, t, u, hs, hblank, htrim,
    (isBoundary_after (lastOf_word hname none)).mp hend⟩

theorem declarative_block {name : List Char} (hname : IsWord name) :
    Declarative (block name) := by
  intro b s h
  obtain ⟨⟨body, r⟩, heq⟩ := Option.isSome_iff_exists.mp h
  obtain ⟨hb, w, hw, t, u, rfl, hblank, htrim, _⟩ := of_block hname heq
  refine ⟨hb, w, hw, t, rfl, ?_⟩
  unfold wordFollows
  rw [htrim, hname.head u, Bool.and_true]
  simpa [BlanksEnd] using hblank

theorem block_eq_some {name w s t u r : List Char} (hname : IsWord name)
    (hb : isBoundary before s.head? = true) (hone : oneOf typeWords s = some (w, t))
    (hgap : gapAndName name t = some u) (hend : WordEnds u)
    (hheader : afterHeader typeWords (lastOf none name) u = some r) :
    block name before s = some ((splitClose 0 r).1, r) := by
  have hlast := lastOf_eq_getLastD hname.1 none ' '
  have hboundary := (isBoundary_after (lastOf_word hname none)).mpr hend
  rw [hlast] at hheader hboundary
  unfold block
  simp only [guard, hb, hone, hgap, hboundary, hheader, if_true, Option.pure_def,
    Option.bind_eq_bind, Option.bind_some]

/-- The body of a type is found at its keyword and stands between its braces. -/
theorem block_found {h : Heading} {inner : Source} (hh : h.WellFormed) (hinner : inner.WellFormed)
    (hsort : h.sort.word ∈ typeWords) (rest : List Char) :
    block h.name.toList (some ' ') (h.keywordChars ++ '{' ::
        (inner.chars ++ (h.close ++ '}' :: rest))) =
      some (inner.chars ++ h.close, inner.chars ++ (h.close ++ '}' :: rest)) := by
  have hend := (tail_markFollows hh (inner.chars ++ (h.close ++ '}' :: rest))).1
  have hone := oneOf_append prefixFree_typeWords hsort
    (' ' :: (h.name.toList ++ (h.tailChars ++ '{' :: (inner.chars ++ (h.close ++ '}' :: rest)))))
  have hgap : gapAndName h.name.toList (' ' :: (h.name.toList ++
      (h.tailChars ++ '{' :: (inner.chars ++ (h.close ++ '}' :: rest))))) =
      some (h.tailChars ++ '{' :: (inner.chars ++ (h.close ++ '}' :: rest))) := by
    refine (gapAndName_eq_some_iff hh.name).mpr ⟨by simp [show isBlank ' ' from by decide], ?_⟩
    rw [trimStart_cons (by decide), trimStart_of_ends (hh.name.blanksEnd _)]
  have hb {s : List Char} : isBoundary (some ' ') (h.sort.word ++ s).head? = true :=
    isBoundary_word rfl (isWord_word h.sort) s
  -- the steps of the reader, in their order; the body then ends at the brace that closes it
  have hfound := block_eq_some hh.name hb hone hgap hend
    (afterHeader_append isWord_typeWords (plain_tailChars hh)
      (silent_tailChars isWord_typeWords hh))
  rw [splitClose_body hh hinner] at hfound
  simpa [Heading.keywordChars] using hfound

/-- A body is found only at the keyword of a class or interface of the name. -/
theorem of_block_keyword {name : List Char} (hname : IsWord name) {h : Heading}
    (hh : h.WellFormed)
    (hmatch : Matches (block name) (some ' ') (h.keywordChars ++ '{' :: rest)) :
    h.sort.word ∈ typeWords ∧ h.name.toList = name := by
  obtain ⟨⟨body, r⟩, heq⟩ := Option.isSome_iff_exists.mp hmatch
  obtain ⟨_, w, hw, t, u, ht, hblank, htrim, hend⟩ := of_block hname heq
  -- both the keyword and the name end where the pattern says that they do
  unfold Heading.keywordChars at ht
  rw [List.append_assoc, List.cons_append, List.append_assoc] at ht
  obtain ⟨rfl, rfl⟩ := word_split_unique (isWord_word h.sort).2 (isWord_typeWords w hw).2
    (wordEnds_space _) (wordEnds_of_blanks hblank) ht
  rw [trimStart_cons (by decide), trimStart_of_ends (hh.name.blanksEnd _)] at htrim
  exact ⟨hw, (word_split_unique hh.name.2 hname.2 (tail_markFollows hh _).1 hend htrim).1⟩

theorem block_step {name : List Char} (hname : IsWord name) {h : Heading} {inner : Source}
    (hh : h.WellFormed) (hinner : inner.WellFormed) (rest : List Char) :
    occurrencesFrom (block name) before
        (h.lead ++ (h.bareChars ++ '{' :: (inner.chars ++ (h.close ++ '}' :: rest)))) =
      (if h.sort.word ∈ typeWords ∧ h.name.toList = name then
        some (inner.chars ++ h.close) else none).toList ++
        occurrencesFrom (block name) (some '{') (inner.chars ++ (h.close ++ '}' :: rest)) := by
  have hp := declarative_block hname
  split
  · rename_i heq
    obtain ⟨hsort, rfl⟩ := heq
    refine occurrences_heading_found hp hh (u := h.keywordChars ++ ['{']) (v := []) (by simp)
      (by simp) ?_ trivial
    simpa using block_found hh hinner hsort rest
  · rename_i hne
    exact occurrences_heading_none hp hh fun hmatch => hne (of_block_keyword hname hh hmatch)

/-- The bodies of a class or interface are its own and no other, since no other type has its
name. -/
theorem bodies_source (hs : Renders text s) {t : Heading × Source} (ht : t ∈ s.types)
    (hsort : t.1.sort.word ∈ typeWords) (hname : IsWord t.1.name.toList) :
    bodies t.1.name text.toList = [t.2.chars ++ t.1.close] := by
  unfold bodies
  rw [occurrences_text (declarative_block hname)
    (fun h inner before rest hh hinner => block_step hname hh hinner rest) hs]
  refine filterMap_unique hs.nodup ht (if_pos ⟨hsort, rfl⟩) ?_
  exact fun y hy => if_neg fun h => hy (String.toList_inj.mp h.2)

end ClassAtlas.Code
