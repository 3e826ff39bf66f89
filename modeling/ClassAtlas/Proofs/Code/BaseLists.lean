import ClassAtlas.Proofs.Code.Declarations
import ClassAtlas.Proofs.Code.WrittenBases

/-!
# Base lists of a source

A base list is read to the end of its line, cut at the commas outside angle brackets and cleared of
type arguments. The bases of a source are written bases without qualifiers, so in a source this
gives back their names, in order.
-/

namespace ClassAtlas.Code

open Text

variable {before : Option Char} {u w g rest : List Char}

/-! ## The names of the bases -/

/-- Without brackets there is nothing to match. -/
theorem balanced_of_plain (hu : ∀ c ∈ u, c ≠ '<' ∧ c ≠ '>') : balanced 0 u = true := by
  induction u with
  | nil => rfl
  | cons c u ih =>
    obtain ⟨hopen, hclose⟩ := hu c (by simp)
    rw [balanced, if_neg hopen, if_neg hclose]
    exact ih fun d hd => hu d (List.mem_cons_of_mem _ hd)

/-- The words of listed words are these words; between a comma and a space there is none. -/
theorem of_mem_wordsOf_listed {ps : List (List Char)} (hps : ∀ p ∈ ps, IsWord p)
    (h : w ∈ wordsOf (listed ps)) : w ∈ ps ∨ w = [] := by
  have hword {p : List Char} (hp : IsWord p) : ∀ c ∈ p, (!isWord c) = false :=
    fun c hc => by rw [hp.2 c hc]; rfl
  unfold wordsOf at h
  cases ps with
  | nil =>
    rw [listed, List.splitOnP_nil] at h
    exact .inr (List.mem_singleton.mp h)
  | cons p ps =>
    induction ps generalizing p with
    | nil =>
      rw [listed, List.flatMap_nil, List.append_nil,
        List.splitOnP_eq_singleton (hword (hps p (by simp)))] at h
      exact .inl h
    | cons q ps ih =>
      have hnext : listed (p :: q :: ps) = p ++ ',' :: ([] ++ ' ' :: listed (q :: ps)) := by
        simp [listed]
      rw [hnext, List.splitOnP_append_cons_of_forall_mem (hword (hps p (by simp))) _ (by decide),
        List.splitOnP_append_cons_of_forall_mem (by simp) _ (by decide)] at h
      rcases List.mem_cons.mp h with rfl | h
      · exact .inl (by simp)
      · -- between two names stands a comma and a blank, which leaves an empty word
        rcases List.mem_cons.mp h with rfl | h
        · exact .inr rfl
        · rcases ih q (fun x hx => hps x (List.mem_cons_of_mem _ hx)) h with hmem | hnil
          · exact .inl (List.mem_cons_of_mem _ hmem)
          · exact .inr hnil

/-- A base of a source, as it is written behind some blanks. -/
def TypeRef.IsBase.written {t : TypeRef} (h : t.IsBase) (lead : List Char)
    (hlead : ∀ c ∈ lead, isBlank c = true) : WrittenBase where
  lead := lead
  qualifiers := []
  name := t.name
  arguments := if t.arguments = [] then none else some (listed (t.arguments.map String.toList))
  trail := []
  isBlank_lead := hlead
  isBlank_trail := by simp
  isIdentifier := by
    intro n hn
    rw [List.mem_singleton.mp hn]
    exact h.name
  notWhere := by
    intro n hn
    rw [List.mem_singleton.mp hn]
    exact h.notWhere _ (by simp)
  balanced := by
    intro s hs
    split at hs
    · exact absurd hs (by simp)
    · obtain rfl := Option.some.inj hs
      refine balanced_of_plain fun c hc => ?_
      have havoids := (madeOf_arguments h.spelled).avoids ['<', '>'] (by decide) (by decide) c hc
      simpa using havoids
  unconstrained := by
    intro s hs
    split at hs
    · exact absurd hs (by simp)
    · obtain rfl := Option.some.inj hs
      intro hmem
      rcases of_mem_wordsOf_listed (by simpa using h.arguments) hmem with hmem | hnil
      · obtain ⟨a, ha, heq⟩ := List.mem_map.mp hmem
        exact h.notWhere a (List.mem_cons_of_mem _ ha) (String.toList_inj.mp heq)
      · exact absurd hnil (by simp)

theorem TypeRef.IsBase.chars_written {t : TypeRef} (h : t.IsBase) {lead : List Char}
    (hlead : ∀ c ∈ lead, isBlank c = true) : (h.written lead hlead).chars = lead ++ t.chars := by
  unfold WrittenBase.chars WrittenBase.pathChars WrittenBase.qualifierChars
    WrittenBase.argumentChars TypeRef.chars TypeRef.argumentChars
  by_cases harguments : t.arguments = []
  · simp [TypeRef.IsBase.written, harguments]
  · simp [TypeRef.IsBase.written, harguments]

/-- The bases of a source behind the first one, as they are written. -/
theorem exists_written {bs : List TypeRef} (hb : ∀ t ∈ bs, t.IsBase) :
    ∃ bs' : List WrittenBase, bs'.map (·.name) = bs.map (·.name) ∧
      (bs'.flatMap fun q => ',' :: q.chars) =
        (bs.map TypeRef.chars).flatMap fun q => ',' :: ' ' :: q := by
  induction bs with
  | nil => exact ⟨[], rfl, rfl⟩
  | cons t bs ih =>
    obtain ⟨bs', hnames, hchars⟩ := ih fun x hx => hb x (List.mem_cons_of_mem _ hx)
    refine ⟨(hb t (by simp)).written [' '] isBlank_space :: bs', ?_, ?_⟩
    · rw [List.map_cons, List.map_cons, hnames]
      rfl
    · rw [List.flatMap_cons, List.map_cons, List.flatMap_cons, hchars,
        TypeRef.IsBase.chars_written]
      rfl

theorem baseNames_listed {bases : List TypeRef} (hne : bases ≠ []) (hb : ∀ t ∈ bases, t.IsBase)
    (hg : ∀ c ∈ g, isBlank c = true) :
    baseNames (listed (bases.map TypeRef.chars) ++ g) = bases.map (·.name) := by
  obtain ⟨t, bs, rfl⟩ := List.exists_cons_of_ne_nil hne
  obtain ⟨bs', hnames, hchars⟩ := exists_written fun x hx => hb x (List.mem_cons_of_mem t hx)
  have ht : t.IsBase := hb t (by simp)
  have hlist : listed ((t :: bs).map TypeRef.chars) = basesChars (ht.written [] (by simp)) bs' := by
    rw [List.map_cons, listed, basesChars, ht.chars_written, hchars]
    rfl
  rw [hlist, baseNames_blanks _ _ hg, List.map_cons, hnames]
  rfl

/-! ## Finding the lists -/

theorem afterTypeParameters_eq {s : List Char} (hs : s.head? ≠ some '<') :
    afterTypeParameters s = s := by
  unfold afterTypeParameters
  split
  · exact absurd rfl hs
  · rfl

theorem of_ancestry {s r : List Char} {list : Ancestry}
    (h : ancestry before s = some (list, r)) :
    isBoundary before s.head? = true ∧ ∃ t name u, s = "class".toList ++ t ∧ ¬ BlanksEnd t ∧
      trimStart t = name ++ u ∧ IsWord name ∧ WordEnds u ∧
      ∃ v, trimStart (afterTypeParameters (trimStart u)) = ':' :: v := by
  unfold ancestry at h
  simp only [guard_eq_some, Option.bind_eq_bind, Option.bind_eq_some_iff, literal_eq_some_iff,
    gap_eq_some_iff] at h
  obtain ⟨_, hb, t, hs, _, ⟨hgap, rfl⟩, ⟨name, u⟩, hword, v, hv, _⟩ := h
  obtain ⟨htrim, hname, hend⟩ := word_eq_some_iff.mp hword
  exact ⟨hb, t, name, u, hs, hgap, htrim, hname, hend, v, hv⟩

theorem declarative_ancestry : Declarative ancestry := by
  intro b s h
  obtain ⟨⟨list, r⟩, heq⟩ := Option.isSome_iff_exists.mp h
  obtain ⟨hb, t, name, u, rfl, hgap, htrim, hname, _⟩ := of_ancestry heq
  refine ⟨hb, _, (by decide +kernel : "class".toList ∈ typeWords), t, rfl, ?_⟩
  unfold wordFollows
  rw [htrim, hname.head u, Bool.and_true]
  simpa [BlanksEnd] using hgap

/-- What the base list of a heading is read as. -/
def Heading.baseList? (h : Heading) : Option Ancestry :=
  if h.sort = .classType ∧ h.bases ≠ [] then some ⟨h.name, h.bases.map (·.name)⟩ else none

/-- A class without a base list is followed by its brace, not by a colon. -/
theorem ancestry_none {h : Heading} (hh : h.WellFormed) (hnone : h.baseList? = none) :
    ¬ Matches ancestry (some ' ') (h.keywordChars ++ '{' :: rest) := by
  intro hmatch
  obtain ⟨⟨list, r⟩, heq⟩ := Option.isSome_iff_exists.mp hmatch
  obtain ⟨_, t, name, u, ht, hgap, htrim, hname, hend, v, hv⟩ := of_ancestry heq
  unfold Heading.keywordChars at ht
  rw [List.append_assoc, List.cons_append, List.append_assoc] at ht
  have hclass : IsWord "class".toList := isWord_word .classType
  obtain ⟨hsort, rfl⟩ := word_split_unique (isWord_word h.sort).2 hclass.2 (wordEnds_space _)
    (wordEnds_of_blanks hgap) ht
  have hsort : h.sort = .classType := word_injective hsort
  have hbases : h.bases = [] := by
    by_cases hb : h.bases = []
    · exact hb
    · exact absurd hnone (by simp [Heading.baseList?, hsort, hb])
  rw [trimStart_cons (by decide), trimStart_of_ends (hh.name.blanksEnd _)] at htrim
  obtain ⟨_, rfl⟩ := word_split_unique hh.name.2 hname.2 (tail_markFollows hh _).1 hend htrim
  -- the colon would have to stand where the brace is
  have hbrace : BlanksEnd ('{' :: rest) := by rfl
  rw [Heading.tailChars, Heading.baseChars, if_pos hbases, List.nil_append,
    trimStart_append hh.gap, trimStart_of_ends hbrace, afterTypeParameters_eq (by simp),
    trimStart_of_ends hbrace] at hv
  exact absurd hv (by simp)

/-- A character that does not end a base list. -/
def staysInList (c : Char) : Bool := decide (c ∉ ['{', '}', ';', '\n'])

theorem baseText_of_run {s : List Char} {found : List Char × List Char}
    (h : run staysInList (trimStart s) = some found) : baseText s = some found := by
  have hrun : run (fun c => decide (c ∉ ['{', '}', ';', '\n'])) (trimStart s) = some found := h
  unfold baseText
  rw [hrun]

theorem staysInList_listed {bases : List TypeRef} (hb : ∀ t ∈ bases, t.IsBase) :
    ∀ c ∈ listed (bases.map TypeRef.chars), staysInList c = true := fun c hc =>
  decide_eq_true
    ((madeOf_types fun t ht => (hb t ht).spelled).avoids _ (by decide) (by decide) c hc)

/-- The text of a base list is all of its line, up to the brace if that stands on it. -/
theorem baseText_listed {b : TypeRef} {bs : List TypeRef} (hb : ∀ t ∈ b :: bs, t.IsBase)
    (g rest : List Char) :
    ∃ g₁ g₂, g = g₁ ++ g₂ ∧ baseText (' ' :: (listed ((b :: bs).map TypeRef.chars) ++
        (g ++ '{' :: rest))) =
      some (listed ((b :: bs).map TypeRef.chars) ++ g₁, g₂ ++ '{' :: rest) := by
  have hname := (hb b (by simp)).spelled.name
  have hfirst (r : List Char) : listed ((b :: bs).map TypeRef.chars) ++ r =
      b.name.toList ++ (b.argumentChars ++
        ((bs.map TypeRef.chars).flatMap (fun q => ',' :: ' ' :: q) ++ r)) := by
    rw [List.map_cons, listed, TypeRef.chars, List.append_assoc, List.append_assoc]
  have hstays : ∀ c ∈ listed ((b :: bs).map TypeRef.chars) ++ g.takeWhile staysInList,
      staysInList c = true := by
    intro c hc
    rcases List.mem_append.mp hc with hc | hc
    · exact staysInList_listed hb c hc
    · exact List.all_eq_true.mp List.all_takeWhile c hc
  have hends : (g.dropWhile staysInList ++ '{' :: rest).head?.any staysInList = false := by
    cases hdrop : g.dropWhile staysInList with
    | nil => rfl
    | cons d r =>
      have hstop := List.head?_dropWhile_not staysInList g
      rw [hdrop] at hstop
      simpa using hstop
  have hnonempty : listed ((b :: bs).map TypeRef.chars) ++ g.takeWhile staysInList ≠ [] := by
    rw [hfirst]
    exact fun hnil => hname.1 (List.append_eq_nil_iff.mp hnil).1
  refine ⟨g.takeWhile staysInList, g.dropWhile staysInList,
    List.takeWhile_append_dropWhile.symm, baseText_of_run ?_⟩
  -- a line break in the gap ends the list there, otherwise the brace does
  have hsplit : g ++ '{' :: rest =
      g.takeWhile staysInList ++ (g.dropWhile staysInList ++ '{' :: rest) := by
    rw [← List.append_assoc, List.takeWhile_append_dropWhile]
  rw [trimStart_cons (by decide), trimStart_of_ends (by rw [hfirst]; exact hname.blanksEnd _),
    hsplit, ← List.append_assoc]
  exact run_append hnonempty hstays hends

theorem ancestry_eq_some {name t text r : List Char} (hname : IsWord name)
    (hbase : baseText t = some (text, r)) :
    ancestry (some ' ') (TypeSort.classType.word ++ ' ' :: (name ++ ' ' :: ':' :: t)) =
      some (⟨String.ofList name, baseNames text⟩, r) := by
  have hb {s : List Char} : isBoundary (some ' ') (TypeSort.classType.word ++ s).head? = true :=
    isBoundary_word rfl (isWord_word .classType) s
  have hliteral (s : List Char) : literal "class".toList (TypeSort.classType.word ++ s) = some s :=
    literal_append _ s
  have hcolon : trimStart (afterTypeParameters (trimStart (' ' :: ':' :: t))) = ':' :: t := by
    have hstart : BlanksEnd (':' :: t) := by rfl
    rw [trimStart_cons (by decide), trimStart_of_ends hstart, afterTypeParameters_eq (by simp),
      trimStart_of_ends hstart]
  unfold ancestry
  simp only [guard, hb, if_true, Option.pure_def, Option.bind_eq_bind, Option.bind_some,
    hliteral, gap_space (hname.blanksEnd _), word_append hname (wordEnds_space _), hcolon,
    literal, hbase]

/-- A class with a base list is read up to the end of that list. -/
theorem ancestry_found {h : Heading} (hh : h.WellFormed) (hsort : h.sort = .classType)
    (hne : h.bases ≠ []) (rest : List Char) :
    occurrencesFrom ancestry before (h.lead ++ (h.bareChars ++ '{' :: rest)) =
      ⟨h.name, h.bases.map (·.name)⟩ :: occurrencesFrom ancestry (some '{') rest := by
  -- the reader may take some of the blanks before the brace for part of the list
  obtain ⟨g₁, g₂, hgap, hbase⟩ : ∃ g₁ g₂, h.gap = g₁ ++ g₂ ∧
      baseText (' ' :: (listed (h.bases.map TypeRef.chars) ++ (h.gap ++ '{' :: rest))) =
        some (listed (h.bases.map TypeRef.chars) ++ g₁, g₂ ++ '{' :: rest) := by
    obtain ⟨b, bs, hbases⟩ := List.exists_cons_of_ne_nil hne
    have hall := hh.bases
    rw [hbases] at hall ⊢
    exact baseText_listed hall h.gap rest
  have hg : (∀ c ∈ g₁, isBlank c = true) ∧ ∀ c ∈ g₂, isBlank c = true := by
    have hall := hh.gap
    rw [hgap] at hall
    exact ⟨fun c hc => hall c (List.mem_append_left _ hc),
      fun c hc => hall c (List.mem_append_right _ hc)⟩
  refine occurrences_heading_found declarative_ancestry hh
    (u := h.sort.word ++ ' ' :: (h.name.toList ++ ' ' :: ':' :: ' ' ::
      (listed (h.bases.map TypeRef.chars) ++ g₁)))
    (v := g₂ ++ ['{']) ?_ (by simp) ?_ ?_
  · unfold Heading.keywordChars Heading.tailChars Heading.baseChars
    rw [if_neg hne, hgap]
    simp only [List.append_assoc, List.cons_append]
  · -- blanks at the end of the list are trimmed off the last name
    have hfound := ancestry_eq_some hh.name hbase
    rw [baseNames_listed hne hh.bases hg.1, String.ofList_toList, hgap] at hfound
    rw [hsort]
    simpa only [List.append_assoc, List.cons_append, List.nil_append] using hfound
  · exact Nowhere.append (silent_blanks isWord_typeWords hg.2)
      (silent_marks isWord_typeWords (by decide))

theorem ancestry_step {h : Heading} (hh : h.WellFormed) (rest : List Char) :
    occurrencesFrom ancestry before (h.lead ++ (h.bareChars ++ '{' :: rest)) =
      h.baseList?.toList ++ occurrencesFrom ancestry (some '{') rest := by
  by_cases hlist : h.sort = .classType ∧ h.bases ≠ []
  · have hsome : h.baseList? = some ⟨h.name, h.bases.map (·.name)⟩ := if_pos hlist
    rw [hsome, ancestry_found hh hlist.1 hlist.2]
    rfl
  · have hnone : h.baseList? = none := if_neg hlist
    rw [hnone, occurrences_heading_none declarative_ancestry hh (ancestry_none hh hnone)]
    rfl

theorem ancestries_source {text : String} {s : Source} (hs : Renders text s) :
    ancestries text = s.types.filterMap fun t => t.1.baseList? := by
  unfold ancestries
  exact occurrences_text declarative_ancestry
    (fun h inner before rest hh _ => ancestry_step hh _) hs

end ClassAtlas.Code
