import ClassAtlas.Proofs.Code.MemberRows
import ClassAtlas.Proofs.Code.WrittenBases
import ClassAtlas.Proofs.Text.Occurrences

/-!
# Keywords taken for types

Between the access word of a member and its type stand keywords, and the reader passes over them as
far as a type and a name are left. A constructor has no type. So the last of its keywords is read as
one, and only a constructor without keywords is passed over. It is the same with every other text
that has an access word, keywords and a name: those are the members whose type is a keyword, and
there are no others.
-/

namespace ClassAtlas.Code

open Text

variable {tail : List Char → Option (List Char)} {before : Option Char} {c : Char}
  {words : List (List Char)} {s r u rest : List Char}

/-! ## Members without a type -/

/-- The words that stand before the type of a member. -/
def memberKeywords : List (List Char) := accessWords ++ memberModifiers

theorem skippedWords_subset : ∀ w ∈ skippedWords, w ∈ memberKeywords := by decide +kernel

theorem isWord_memberKeywords : ∀ w ∈ memberKeywords, IsWord w ∧ w ∉ nestedTypeWords := by
  decide +kernel

/-- A member whose type is missing: keywords stand between its access word and its name, and nothing
else. -/
def Typeless (tail : List Char → Option (List Char)) (s : List Char) : Prop :=
  ∃ (access g : List Char) (ks : Row) (name behind : List Char),
    s = access ++ (g ++ (ks.chars ++ (name ++ behind))) ∧ access ∈ accessWords ∧ IsGap g ∧
      ks ≠ [] ∧ ks.Of memberKeywords ∧ IsWord name ∧ WordEnds behind ∧
      (tail (trimStart behind)).isSome = true

/-- A member whose type is a keyword has no type. -/
theorem typeless_of_mem_keywords {m : MemberDeclaration} (h : member tail before s = some (m, r))
    (hkeyword : m.type.toList ∈ memberKeywords) : Typeless tail s := by
  obtain ⟨t⟩ := exists_memberText h
  -- the word read as a type joins the row of keywords, and no type is left
  have hrow : Row.Of memberKeywords (t.keywords ++ [(m.type.toList, t.space)]) := by
    intro k hk
    rcases List.mem_append.mp hk with hk | hk
    · exact ⟨skippedWords_subset _ (t.skipped k hk).1, (t.skipped k hk).2⟩
    · rw [List.mem_singleton.mp hk]
      exact ⟨hkeyword, t.isGap_space⟩
  refine ⟨m.access.toList, t.gap, t.keywords ++ [(m.type.toList, t.space)], m.name.toList,
    t.behind, ?_, t.isAccess, t.isGap_gap, by simp, hrow, t.isWord_name, t.ends, ?_⟩
  · refine t.split.trans ?_
    simp only [Row.chars_append, Row.chars_cons, Row.chars_nil, List.append_nil,
      List.append_assoc]
  · rw [t.reads]
    rfl

/-- The last keyword stands where the type does. -/
theorem Typeless.mem_keywords {m : MemberDeclaration} (htail : Bracketed tail)
    (h : member tail before s = some (m, r)) (hs : Typeless tail s) :
    m.type.toList ∈ memberKeywords := by
  obtain ⟨access, g, ks, name, behind, rfl, haccess, hg, hne, hks, hname, _, hsome⟩ := hs
  -- the tail is needed only to know that a bracket follows: the row before it is read in one way
  obtain ⟨init, k, rfl⟩ := (List.eq_nil_or_concat' ks).resolve_left hne
  obtain ⟨r', hreads⟩ := Option.isSome_iff_exists.mp hsome
  obtain ⟨c, u, htrim, hc⟩ := htail _ _ hreads
  obtain ⟨b, hbehind, hb⟩ := trimStart_split behind
  rw [htrim] at hbehind
  have hk := hks k (by simp)
  have hinit : Row.Of memberKeywords init := fun k' hk' => hks k' (List.mem_append_left _ hk')
  have hlettered : Lettered (access ++ (g ++ Row.chars init)) :=
    hinit.lettered_behind (fun w hw => (isWord_memberKeywords w hw).1)
      (isWord_accessWords _ haccess) hg
  have hsplit : member tail before
      ((access ++ (g ++ Row.chars init)) ++ (k.1 ++ (k.2 ++ (name ++ (b ++ c :: u))))) =
        some (m, r) := by
    rw [← h, hbehind]
    simp only [Row.chars_append, Row.chars_cons, Row.chars_nil, List.append_nil,
      List.append_assoc]
  obtain ⟨htype, _⟩ := member_row htail hlettered (hinit.ends_behind hg access)
    (isWord_memberKeywords _ hk.1).1 hk.2 hname hb hc hsplit
  rw [htype]
  exact hk.1

/-- The members whose type is a keyword are those without a type. -/
theorem type_mem_keywords_iff {m : MemberDeclaration} (htail : Bracketed tail)
    (h : member tail before s = some (m, r)) :
    m.type.toList ∈ memberKeywords ↔ Typeless tail s :=
  ⟨typeless_of_mem_keywords h, Typeless.mem_keywords htail h⟩

/-! ## Constructors -/

/-- A constructor: an access word, keywords, the name of its class, and any text without brackets
for its parameters. -/
structure Constructor where
  lead : List Char
  access : String
  gap : List Char
  keywords : Row
  name : String
  parameterText : List Char
  body : MethodBody
  trail : List Char
  isBlank_lead : ∀ d ∈ lead, isBlank d = true
  isAccess : access.toList ∈ accessWords
  isGap : IsGap gap
  skippable : keywords.Skippable
  isWord_name : IsWord name.toList
  bracketless : Bracketless parameterText
  typeless : ∀ w ∈ nestedTypeWords, w ∉ wordsOf parameterText
  isBlank_trail : ∀ d ∈ trail, isBlank d = true

namespace Constructor

/-- The text up to the parameters. -/
def head (k : Constructor) : List Char :=
  k.access.toList ++ (k.gap ++ (k.keywords.chars ++ k.name.toList))

/-- The text of a constructor without the blanks around it. -/
def bareChars (k : Constructor) : List Char :=
  k.head ++ '(' :: (k.parameterText ++ ')' :: k.body.chars)

/-- The text of a constructor. -/
def chars (k : Constructor) : List Char := k.lead ++ (k.bareChars ++ k.trail)

/-- The method that is read from a constructor: none if it has no keywords, and otherwise one whose
type is the last of them. -/
def method? (k : Constructor) : Option MemberDeclaration :=
  k.keywords.getLast?.map fun (word, _) => ⟨k.access, String.ofList word, k.name⟩

/-! ### No type is declared in a constructor -/

theorem silent_row {ks : Row} (hks : ks.Of memberKeywords) :
    Silent nestedTypeWords before ks.chars rest := by
  induction ks generalizing before with
  | nil => trivial
  | cons k ks ih =>
    obtain ⟨hword, hgap⟩ := hks k (by simp)
    obtain ⟨hk, hnot⟩ := isWord_memberKeywords _ hword
    rw [Row.chars_cons]
    refine Nowhere.append (silent_word isWord_nestedTypeWords hk hnot ?_)
      (Nowhere.append (silent_blanks isWord_nestedTypeWords hgap.2) (ih hks.behind))
    rw [List.append_assoc]
    exact wordEnds_of_blanks (hgap.not_blanksEnd _)

theorem silent_text (hu : ∀ w ∈ nestedTypeWords, w ∉ wordsOf u) (hr : WordEnds rest) :
    Silent nestedTypeWords before u rest := by
  refine nowhere_of_wordsOf ?_ isWord_nestedTypeWords hu hr
  rintro b s ⟨hboundary, w, hw, r, hs, hfollows⟩
  exact ⟨hboundary, w, hw, r, hs, wordEnds_of_wordFollows hfollows⟩

theorem keywords_of (k : Constructor) : k.keywords.Of memberKeywords :=
  k.skippable.of.mono skippedWords_subset

theorem silent_bareChars (k : Constructor) : Silent nestedTypeWords before k.bareChars rest := by
  have hwords := isWord_nestedTypeWords
  obtain ⟨haccess, hnot⟩ := isWord_memberKeywords _ (List.mem_append_left _ k.isAccess)
  refine Nowhere.append (Nowhere.append (silent_word hwords haccess hnot ?_)
    (Nowhere.append (silent_blanks hwords k.isGap.2) (Nowhere.append (silent_row k.keywords_of)
      (silent_before_mark hwords k.isWord_name (markFollows_cons (by decide) (by decide) _)))))
    ((silent_mark hwords (by decide)).mpr (Nowhere.append (silent_text k.typeless (by rfl))
      ((silent_mark hwords (by decide)).mpr (silent_methodBody k.body))))
  rw [List.append_assoc]
  exact wordEnds_of_blanks (k.isGap.not_blanksEnd _)

theorem nowhere_nestedType_chars (k : Constructor) :
    Nowhere (Matches nestedType) before k.chars rest := by
  have hend : EndsInMark k.bareChars :=
    ((((endsInMark_methodBody k.body).cons ')').append k.parameterText).cons '(').append k.head
  obtain ⟨u, c, hu, hc, hb⟩ := hend
  refine Nowhere.append (nowhere_blanks wordy_nestedType k.isBlank_lead)
    (Nowhere.append ?_ (nowhere_blanks wordy_nestedType k.isBlank_trail))
  have hsilent : Silent nestedTypeWords (lastOf before k.lead) k.bareChars (k.trail ++ rest) :=
    k.silent_bareChars
  rw [hu] at hsilent ⊢
  exact nowhere_nestedType hsilent hc hb

theorem withoutNested_constructors (ks : List Constructor) :
    withoutNested (ks.flatMap chars) = ks.flatMap chars := by
  have hnone : ∀ before, Nowhere (Matches nestedType) before (ks.flatMap chars) [] := by
    induction ks with
    | nil => exact fun _ => trivial
    | cons k ks ih =>
      intro before
      rw [List.flatMap_cons]
      exact Nowhere.append k.nowhere_nestedType_chars (ih _)
  exact eraseFrom_eq_self (hnone none)

/-! ### What is read from a constructor -/

theorem bracketless_head (k : Constructor) : Bracketless k.head := by
  refine Lettered.bracketless ((lettered_word (isWord_accessWords _ k.isAccess)).append
    ((lettered_blanks k.isGap.2).append (Lettered.append ?_ (lettered_word k.isWord_name))))
  exact k.keywords_of.lettered fun w hw => (isWord_memberKeywords w hw).1

/-- No member begins in a constructor if none begins before its parameters. -/
theorem nowhere_member_chars (k : Constructor) (htail : Bracketed tail)
    (hclose : ∀ r, tail (')' :: r) = none)
    (hhead : ∀ b r, Nowhere (Matches (member tail)) b k.head ('(' :: r)) :
    Nowhere (Matches (member tail)) before k.chars rest := by
  refine Nowhere.append (nowhere_blanks wordy_member k.isBlank_lead) (Nowhere.append
    (Nowhere.append (hhead _ _) ((nowhere_mark wordy_member (by decide)).mpr (Nowhere.append ?_
      ((nowhere_mark wordy_member (by decide)).mpr (nowhere_member_body k.body)))))
    (nowhere_blanks wordy_member k.isBlank_trail))
  exact nowhere_member_bracket htail k.bracketless (by decide) (hclose _)

/-- No property begins in a constructor: its first bracket is the one of its parameters. -/
theorem nowhere_accessors (k : Constructor) :
    Nowhere (Matches (member accessors)) before k.chars rest :=
  k.nowhere_member_chars bracketed_accessors (fun _ => rfl) fun _ _ =>
    nowhere_member_bracket bracketed_accessors k.bracketless_head (by decide) rfl

theorem parameters_text (hu : Bracketless u) (r : List Char) :
    parameters ('(' :: (u ++ ')' :: r)) = some r := by
  have hstop : ∀ c ∈ u, decide (c ≠ ')') = true := fun c hc =>
    decide_eq_true fun heq => hu c hc (heq ▸ by decide)
  have hdrop := dropWhile_append_of_ends (s := ')' :: r) hstop (by simp)
  unfold parameters
  simp only [literal, if_true, Option.bind_eq_bind, Option.bind_some, hdrop]

/-- A constructor without keywords is passed over: the access word and the name alone are no
member. -/
theorem nowhere_parameters (k : Constructor) (hnil : k.keywords = []) :
    Nowhere (Matches (member parameters)) before k.chars rest := by
  have hhead : k.head = k.access.toList ++ (k.gap ++ (k.name.toList ++ [])) := by
    unfold head
    rw [hnil, Row.chars_nil, List.append_nil, List.nil_append]
  refine k.nowhere_member_chars bracketed_parameters (fun _ => rfl) fun _ _ => ?_
  rw [hhead]
  exact nowhere_member_pair bracketed_parameters (isWord_accessWords _ k.isAccess) k.isGap
    k.isWord_name (by simp) (by decide)

/-- The text up to the end of the parameters. -/
def signature (k : Constructor) : List Char := k.head ++ '(' :: (k.parameterText ++ [')'])

/-- The last keyword of a constructor is read as the type. -/
theorem member_signature (k : Constructor) {init : Row} {word g : List Char}
    (hrow : k.keywords = init ++ [(word, g)]) :
    member parameters before (k.signature ++ rest) =
      some (⟨k.access, String.ofList word, k.name⟩, rest) := by
  have hskippable := k.skippable
  have hkeywords := k.keywords_of
  rw [hrow] at hskippable hkeywords
  obtain ⟨hword, hg⟩ := hkeywords (word, g) (by simp)
  -- the last keyword stands where the reader expects a type
  have hread : member parameters before
      (k.access.toList ++ (k.gap ++ (Row.chars init ++ (word ++ (g ++ (k.name.toList ++ ([] ++
        '(' :: (k.parameterText ++ ')' :: rest)))))))) =
      (parameters ('(' :: (k.parameterText ++ ')' :: rest))).map fun r =>
        (⟨String.ofList k.access.toList, String.ofList word, String.ofList k.name.toList⟩, r) :=
    member_reads bracketed_parameters k.isAccess k.isGap hskippable.init
      (isWord_memberKeywords _ hword).1 hg k.isWord_name (by simp) (by decide)
  rw [parameters_text k.bracketless, Option.map_some, String.ofList_toList,
    String.ofList_toList] at hread
  rw [← hread, signature, head, hrow]
  simp only [Row.chars_append, Row.chars_cons, Row.chars_nil, List.append_nil, List.nil_append,
    List.append_assoc, List.cons_append]

/-- A constructor adds the method that is read from it, and nothing else. -/
theorem occurrences_chars (k : Constructor) :
    occurrencesFrom (member parameters) before (k.chars ++ rest) =
      k.method?.toList ++ occurrencesFrom (member parameters) (lastOf before k.chars) rest := by
  unfold method?
  rcases List.eq_nil_or_concat' k.keywords with hnil | ⟨init, ⟨word, g⟩, hrow⟩
  · rw [occurrencesFrom_of_nowhere (k.nowhere_parameters hnil), hnil]
    rfl
  · -- with a keyword the signature is a member; what is around it holds none
    have hlead {r : List Char} : Nowhere (Matches (member parameters)) before k.lead r :=
      nowhere_blanks wordy_member k.isBlank_lead
    have hbehind {b : Option Char} {r : List Char} :
        Nowhere (Matches (member parameters)) b (k.body.chars ++ k.trail) r :=
      Nowhere.append (nowhere_member_body k.body) (nowhere_blanks wordy_member k.isBlank_trail)
    have htext : k.chars = k.lead ++ (k.signature ++ (k.body.chars ++ k.trail)) := by
      simp only [chars, bareChars, signature, List.append_assoc, List.cons_append,
        List.nil_append]
    rw [htext, List.append_assoc, List.append_assoc, occurrencesFrom_of_nowhere hlead,
      occurrencesFrom_of_found (k.member_signature hrow) (by simp [signature]),
      occurrencesFrom_of_nowhere hbehind, hrow]
    simp only [List.getLast?_concat, Option.map_some, Option.toList_some, List.singleton_append,
      lastOf_append]

theorem occurrences_constructors (ks : List Constructor) :
    occurrencesFrom (member parameters) before (ks.flatMap chars) = ks.filterMap method? := by
  induction ks generalizing before with
  | nil => rfl
  | cons k ks ih =>
    rw [List.flatMap_cons, k.occurrences_chars, ih, List.filterMap_cons]
    cases k.method? <;> rfl

theorem declaredMembers_constructors (ks : List Constructor) :
    declaredMembers (ks.flatMap chars) =
      { attributes := [], methods := (ks.filterMap method?).map (·.line) } := by
  -- no constructor is a property
  have hnone : ∀ before, Nowhere (Matches (member accessors)) before (ks.flatMap chars) [] := by
    induction ks with
    | nil => exact fun _ => trivial
    | cons k ks ih =>
      intro before
      rw [List.flatMap_cons]
      exact Nowhere.append k.nowhere_accessors (ih _)
  have hproperties := occurrencesFrom_eq_nil (hnone none)
  have hmethods : occurrencesFrom (member parameters) none (ks.flatMap chars) =
      ks.filterMap method? := occurrences_constructors ks
  unfold declaredMembers
  rw [withoutNested_constructors]
  unfold occurrencesFrom at hproperties hmethods
  unfold occurrences
  dsimp only
  rw [hproperties, hmethods]
  rfl

end Constructor

/-! ## Every body -/

/-- **Keywords taken for types.** The members that are read from a body have a keyword for their
type exactly where the text has no type: an access word, keywords, and a name. So of any
constructors those without keywords are passed over, and every other one is read as a method whose
type is its last keyword. -/
theorem keywords_taken_for_types (body : List Char) (constructors : List Constructor) :
    (∃ (properties : List (Occurrence (member accessors) none (withoutNested body)))
        (methods : List (Occurrence (member parameters) none (withoutNested body))),
      declaredMembers body =
          { attributes := properties.map (·.value.line)
            methods := methods.map (·.value.line) } ∧
        (∀ o ∈ properties,
          o.value.type.toList ∈ memberKeywords ↔ Typeless accessors o.behind) ∧
        ∀ o ∈ methods, o.value.type.toList ∈ memberKeywords ↔ Typeless parameters o.behind) ∧
      declaredMembers (constructors.flatMap Constructor.chars) =
        { attributes := []
          methods := (constructors.filterMap Constructor.method?).map (·.line) } ∧
      ((declaredMembers (constructors.flatMap Constructor.chars)).methods = [] ↔
        ∀ k ∈ constructors, k.keywords = []) := by
  have hread := Constructor.declaredMembers_constructors constructors
  refine ⟨?_, hread, ?_⟩
  · obtain ⟨ps, hps, _⟩ := exists_occurrences (member accessors) none (withoutNested body)
    obtain ⟨ms, hms, _⟩ := exists_occurrences (member parameters) none (withoutNested body)
    -- `exists_occurrences` lists what the reader finds, each with the place it is found at
    refine ⟨ps, ms, ?_, fun o _ => type_mem_keywords_iff bracketed_accessors o.reads,
      fun o _ => type_mem_keywords_iff bracketed_parameters o.reads⟩
    unfold occurrencesFrom at hps hms
    unfold declaredMembers occurrences
    dsimp only
    rw [hps, hms, List.map_map, List.map_map]
    rfl
  · rw [hread, List.map_eq_nil_iff, List.filterMap_eq_nil_iff]
    refine forall₂_congr fun k _ => ?_
    rw [Constructor.method?, Option.map_eq_none_iff, List.getLast?_eq_none_iff]

/-- A constructor with a compound access and a parameter. Its method is called by the class and has
the second word of the access for its type. -/
theorem keywords_taken_for_types_dog :
    ∃ k : Constructor,
      k.chars = "protected internal Dog(string name) \x7b \x7d\n".toList ∧
        k.keywords ≠ [] ∧ k.parameterText ≠ [] ∧
        declaredMembers ([k].flatMap Constructor.chars) =
          { attributes := [], methods := ["# Dog: internal"] } := by
  let k : Constructor :=
    { lead := []
      access := "protected"
      gap := [' ']
      keywords := [("internal".toList, [' '])]
      name := "Dog"
      parameterText := "string name".toList
      body := .empty
      trail := ['\n']
      isBlank_lead := by decide
      isAccess := by decide
      isGap := by decide
      skippable := .second (by decide) (by decide) nofun
      isWord_name := by decide
      bracketless := by decide
      typeless := by decide
      isBlank_trail := by decide }
  refine ⟨k, by decide, by decide, by decide, ?_⟩
  exact (keywords_taken_for_types [] [k]).2.1

/-- A body with a constructor and a property. -/
def dogBody : String :=
  "protected internal Dog(string name) \x7b \x7d\n" ++ "public string Name \x7b get; set; \x7d\n"

/-- Behind the second word of a compound access a constructor is read as a method. -/
theorem constructor_read_as_method :
    ¬ ∀ (body : List Char) (access type name : String),
      memberLine (visibilityMark access) name type ∈ (declaredMembers body).methods →
        type.toList ∉ memberKeywords := by
  intro hclaim
  have hread : declaredMembers dogBody.toList =
      { attributes := ["+ Name: string"], methods := ["# Dog: internal"] } := by decide +kernel
  have hline : memberLine (visibilityMark "protected") "Dog" "internal" ∈
      (declaredMembers dogBody.toList).methods := by
    rw [hread]
    decide +kernel
  exact hclaim _ _ _ _ hline (by decide +kernel)

end ClassAtlas.Code
