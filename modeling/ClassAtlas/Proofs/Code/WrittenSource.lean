import ClassAtlas.Proofs.Code.Declarations
import ClassAtlas.Proofs.Code.Written

/-!
# The written text as a source

The text that is written of a diagram is that of a source: a type for every box, with properties and
stubs of methods in it, and with comments behind the last one. The writer puts line breaks behind
lines, and a source has its blanks before the declarations, so the text is taken with the breaks
before the lines.
-/

namespace ClassAtlas.Code

open Text

variable {K : Type}

/-! ## Lines with breaks before them -/

/-- The characters of some lines, with a line break before each. -/
def broken (ls : List String) : List Char := ls.flatMap fun l => '\n' :: l.toList

@[simp] theorem broken_nil : broken [] = [] := rfl

@[simp] theorem broken_cons (l : String) (ls : List String) :
    broken (l :: ls) = '\n' :: (l.toList ++ broken ls) := rfl

@[simp] theorem broken_append (ls ms : List String) :
    broken (ls ++ ms) = broken ls ++ broken ms := by
  simp [broken]

theorem charsOf_broken (ls : List String) : '\n' :: charsOf ls = broken ls ++ ['\n'] := by
  induction ls with
  | nil => rfl
  | cons l ls ih => rw [charsOf_cons, ih, broken_cons, List.cons_append, List.append_assoc]

theorem broken_flatMap {α : Type} (f : α → List String) (xs : List α) :
    broken (xs.flatMap f) = xs.flatMap fun x => broken (f x) := by
  induction xs with
  | nil => rfl
  | cons x xs ih => rw [List.flatMap_cons, broken_append, ih, List.flatMap_cons]

theorem intercalate_cons {α : Type} (sep x : List α) (xs : List (List α)) :
    sep.intercalate (x :: xs) = x ++ xs.flatMap (sep ++ ·) := by
  induction xs generalizing x with
  | nil => simp
  | cons y ys ih => rw [List.intercalate_cons_cons, ih, List.flatMap_cons, List.append_assoc,
      List.append_assoc]

/-! ## Members -/

/-- The break and the indentation before a member. -/
def indent : List Char := ['\n', ' ', ' ', ' ', ' ']

def propertyOf (name : String) : SourceMember := ⟨indent, "public", ⟨"string", []⟩, name, .property⟩

def stubOf (lead : List Char) (name : String) : SourceMember :=
  ⟨lead, "public", ⟨"void", []⟩, name, .method [] .stub⟩

def signatureOf (name : String) : SourceMember :=
  ⟨indent, "public", ⟨"void", []⟩, name, .method [] .missing⟩

/-- Stubs, the first of which stands behind a given lead and the others behind empty lines. -/
def stubsOf (lead : List Char) : List String → List SourceMember
  | [] => []
  | name :: names => stubOf lead name :: names.map (stubOf ('\n' :: indent))

/-- The members of a box, as they are declared. -/
def Box.declared (b : Box) : List SourceMember :=
  if b.isInterface then b.methods.map signatureOf
  else b.attributes.map propertyOf ++
    stubsOf (if b.attributes = [] then indent else '\n' :: indent) b.methods

/-- A source of members only. -/
def Source.ofMembers : List SourceMember → Source
  | [] => .nil
  | m :: ms => .member m (ofMembers ms)

theorem chars_ofMembers (ms : List SourceMember) :
    (Source.ofMembers ms).chars = ms.flatMap SourceMember.chars := by
  induction ms with
  | nil => rfl
  | cons m ms ih => rw [Source.ofMembers, Source.chars, ih, List.flatMap_cons]

theorem types_ofMembers (ms : List SourceMember) : (Source.ofMembers ms).types = [] := by
  induction ms with
  | nil => rfl
  | cons m ms ih => exact ih

theorem members_ofMembers (ms : List SourceMember) : (Source.ofMembers ms).members = ms := by
  induction ms with
  | nil => rfl
  | cons m ms ih => rw [Source.ofMembers, Source.members, ih]

theorem wellFormed_ofMembers {ms : List SourceMember} (h : ∀ m ∈ ms, m.WellFormed) :
    (Source.ofMembers ms).WellFormed := by
  induction ms with
  | nil => trivial
  | cons m ms ih => exact ⟨h m (by simp), ih fun x hx => h x (List.mem_cons_of_mem _ hx)⟩

theorem chars_propertyOf (name : String) :
    (propertyOf name).chars = broken [propertyLine name] := by
  have hhead : "    public string ".toList =
      [' ', ' ', ' ', ' '] ++ ("public".toList ++ ' ' :: ("string".toList ++ [' '])) := by
    decide +kernel
  have hform : MemberForm.property.chars = " \x7b get; set; \x7d".toList := by decide +kernel
  show indent ++ ("public".toList ++ ' ' :: (("string".toList ++ []) ++ ' ' ::
    (name.toList ++ MemberForm.property.chars))) = _
  have hline : propertyLine name = "    public string " ++ name ++ " \x7b get; set; \x7d" := rfl
  rw [hform, broken_cons, hline, String.toList_append, String.toList_append, hhead]
  simp only [indent, List.append_assoc, List.cons_append, List.nil_append, List.append_nil,
    broken_nil]

theorem chars_signatureOf (name : String) :
    (signatureOf name).chars = broken ["    public void " ++ name ++ "();"] := by
  have hhead : "    public void ".toList =
      [' ', ' ', ' ', ' '] ++ ("public".toList ++ ' ' :: ("void".toList ++ [' '])) := by
    decide +kernel
  show indent ++ ("public".toList ++ ' ' :: (("void".toList ++ []) ++ ' ' ::
    (name.toList ++ '(' :: ')' :: ";".toList))) = _
  rw [broken_cons, String.toList_append, String.toList_append, hhead,
    show "();".toList = '(' :: ')' :: ";".toList from by decide +kernel]
  simp only [indent, List.append_assoc, List.cons_append, List.nil_append, List.append_nil,
    broken_nil]

theorem chars_stubOf (name : String) : (stubOf indent name).chars = broken (methodLines name) := by
  have hhead : "    public void ".toList =
      [' ', ' ', ' ', ' '] ++ ("public".toList ++ ' ' :: ("void".toList ++ [' '])) := by
    decide +kernel
  have hbody : MethodBody.stub.chars =
      broken ["    \x7b", "        // Method body", "    \x7d"] := by decide +kernel
  show indent ++ ("public".toList ++ ' ' :: (("void".toList ++ []) ++ ' ' ::
    (name.toList ++ '(' :: ')' :: MethodBody.stub.chars))) = _
  have hlines : broken (methodLines name) = '\n' :: (("    public void " ++ name ++ "()").toList ++
      broken ["    \x7b", "        // Method body", "    \x7d"]) := rfl
  rw [hlines, hbody, String.toList_append, String.toList_append, hhead,
    show "()".toList = ['(', ')'] from by decide +kernel]
  simp only [indent, List.append_assoc, List.cons_append, List.nil_append, List.append_nil]

theorem chars_stubOf_spaced (name : String) :
    (stubOf ('\n' :: indent) name).chars = broken ("" :: methodLines name) := by
  have hspaced : (stubOf ('\n' :: indent) name).chars = '\n' :: (stubOf indent name).chars := rfl
  rw [hspaced, chars_stubOf, broken_cons]
  rfl

theorem chars_stubsOf (spaced : Bool) (names : List String) :
    (stubsOf (if spaced then '\n' :: indent else indent) names).flatMap SourceMember.chars =
      broken (if spaced then (names.map methodLines).flatMap ("" :: ·)
        else [""].intercalate (names.map methodLines)) := by
  have hrest (names : List String) :
      (names.map (stubOf ('\n' :: indent))).flatMap SourceMember.chars =
        broken ((names.map methodLines).flatMap ("" :: ·)) := by
    rw [broken_flatMap, List.flatMap_map, List.flatMap_map]
    exact congrArg names.flatMap (funext chars_stubOf_spaced)
  -- only the first stub depends on whether there are properties above it
  cases names with
  | nil => cases spaced <;> rfl
  | cons name names =>
    rw [stubsOf, List.flatMap_cons, hrest]
    cases spaced with
    | true =>
      rw [if_pos rfl, if_pos rfl, chars_stubOf_spaced, List.map_cons, List.flatMap_cons,
        broken_append]
    | false =>
      rw [if_neg (by simp), if_neg (by simp), chars_stubOf, List.map_cons, intercalate_cons,
        broken_append]
      rfl

/-- The body of a box as it is written, with line breaks before the lines. -/
theorem chars_declared (b : Box) :
    (Source.ofMembers b.declared).chars =
      broken (if b.isInterface then b.methods.map fun name => "    public void " ++ name ++ "();"
        else b.attributes.map propertyLine ++
          if b.attributes = [] then [""].intercalate (b.methods.map methodLines)
          else (b.methods.map methodLines).flatMap ("" :: ·)) := by
  rw [chars_ofMembers]
  unfold Box.declared
  cases b.isInterface with
  | true =>
    rw [if_pos rfl, if_pos rfl, List.flatMap_map, broken, List.flatMap_map]
    refine congrArg b.methods.flatMap (funext ?_)
    intro name
    rw [chars_signatureOf, broken_cons, broken_nil, List.append_nil]
  | false =>
    have hproperties (names : List String) :
        (names.map propertyOf).flatMap SourceMember.chars = broken (names.map propertyLine) := by
      rw [List.flatMap_map, broken, List.flatMap_map]
      refine congrArg names.flatMap (funext ?_)
      intro name
      rw [chars_propertyOf, broken_cons, broken_nil, List.append_nil]
    -- an empty line stands above the first stub, unless there are no properties
    have hstubs := chars_stubsOf (decide (b.attributes ≠ [])) b.methods
    rw [if_neg Bool.false_ne_true, if_neg Bool.false_ne_true, List.flatMap_append, broken_append,
      hproperties]
    by_cases hnone : b.attributes = []
    · simpa [hnone] using hstubs
    · simpa [hnone] using hstubs

/-! ## Types -/

/-- The heading of a box with given bases. An interface has none. -/
def Box.heading (lead : List Char) (bases : List String) (b : Box) : Heading :=
  { lead
    sort := if b.isInterface then .interfaceType else .classType
    name := b.label
    bases := if b.isInterface then [] else bases.map fun name => ⟨name, []⟩
    gap := ['\n']
    close := ['\n'] }

theorem chars_bases (bases : List String) :
    listed ((bases.map fun name => (⟨name, []⟩ : TypeRef)).map TypeRef.chars) =
      (", ".intercalate bases).toList := by
  have hname (name : String) : TypeRef.chars ⟨name, []⟩ = name.toList :=
    List.append_nil name.toList
  rw [List.map_map, String.toList_intercalate, show ", ".toList = [',', ' '] from rfl]
  cases bases with
  | nil => rfl
  | cons name names =>
    rw [List.map_cons, List.map_cons, listed, intercalate_cons, Function.comp_apply, hname]
    refine congrArg (name.toList ++ ·) ?_
    rw [List.flatMap_map, List.flatMap_map]
    exact congrArg names.flatMap (funext fun name => by rw [Function.comp_apply, hname]; rfl)

/-- The base list of a class as it is written. -/
theorem baseChars_heading (lead : List Char) (bases : List String) {b : Box}
    (hclass : ¬ b.isInterface = true) : (b.heading lead bases).baseChars =
      (if bases = [] then "" else " : " ++ ", ".intercalate bases).toList := by
  have hrefs : (b.heading lead bases).bases = bases.map fun name => ⟨name, []⟩ :=
    if_neg hclass
  unfold Heading.baseChars
  rw [hrefs, chars_bases]
  by_cases hnone : bases = []
  · rw [if_pos hnone, if_pos (List.map_eq_nil_iff.mpr hnone)]
    rfl
  · rw [if_neg hnone, if_neg (mt List.map_eq_nil_iff.mp hnone), String.toList_append]
    rfl

/-- The first line of a box. -/
theorem chars_heading (lead : List Char) (bases : List String) (b : Box) :
    (b.heading lead bases).bareChars =
      (if b.isInterface then "public interface " ++ b.label
        else classHeader b.label bases).toList ++ ['\n'] := by
  have hchars : (b.heading lead bases).bareChars = "public".toList ++ ' ' ::
      ((b.heading lead bases).sort.word ++ ' ' :: (b.label.toList ++
        ((b.heading lead bases).baseChars ++ ['\n']))) := rfl
  -- an interface is written without bases
  rw [hchars]
  cases hkind : b.isInterface with
  | true =>
    have hhead : "public interface ".toList =
        "public".toList ++ ' ' :: (TypeSort.interfaceType.word ++ [' ']) := by decide +kernel
    have hsort : (b.heading lead bases).sort = .interfaceType := if_pos hkind
    have hbases : (b.heading lead bases).baseChars = [] := if_pos (if_pos hkind)
    rw [hsort, hbases, if_pos rfl, String.toList_append, hhead]
    simp only [List.append_assoc, List.cons_append, List.nil_append]
  | false =>
    have hhead : "public class ".toList =
        "public".toList ++ ' ' :: (TypeSort.classType.word ++ [' ']) := by decide +kernel
    have hclass : ¬ b.isInterface = true := by rw [hkind]; exact Bool.false_ne_true
    have hsort : (b.heading lead bases).sort = .classType := if_neg hclass
    rw [hsort, baseChars_heading lead bases hclass, if_neg Bool.false_ne_true]
    unfold classHeader
    rw [String.toList_append, String.toList_append, hhead]
    simp only [List.append_assoc, List.cons_append, List.nil_append]

theorem broken_lines (lead : List Char) (bases : List String) (b : Box) :
    broken (b.lines bases) = '\n' :: ((b.heading lead bases).bareChars ++
      '{' :: ((Source.ofMembers b.declared).chars ++ ['\n', '}'])) := by
  have hopen : "\x7b".toList = ['{'] := rfl
  have hclose : "\x7d".toList = ['}'] := rfl
  rw [chars_heading, chars_declared]
  unfold Box.lines
  cases b.isInterface with
  | true =>
    rw [if_pos rfl, if_pos rfl, if_pos rfl]
    simp only [broken_append, broken_cons, broken_nil, hopen, hclose, List.append_assoc,
      List.cons_append, List.nil_append, List.append_nil]
  | false =>
    rw [if_neg Bool.false_ne_true, if_neg Bool.false_ne_true, if_neg Bool.false_ne_true]
    simp only [broken_append, broken_cons, broken_nil, hopen, hclose, List.append_assoc,
      List.cons_append, List.nil_append, List.append_nil]

/-- The source of some boxes, the first of which stands behind a given lead and the others behind
empty lines. -/
def sourceOf (bases : String → List String) (lead : List Char) : List Box → Source
  | [] => .nil
  | b :: bs =>
    .type (b.heading lead (bases b.label)) (.ofMembers b.declared) (sourceOf bases ['\n', '\n'] bs)

theorem chars_sourceOf_spaced (bases : String → List String) (bs : List Box) :
    (sourceOf bases ['\n', '\n'] bs).chars =
      broken (bs.flatMap fun b => "" :: b.lines (bases b.label)) := by
  induction bs with
  | nil => rfl
  | cons b bs ih =>
    rw [List.flatMap_cons, broken_append, ← ih, broken_cons, broken_lines ['\n', '\n']]
    simp [sourceOf, Source.chars, Box.heading]

theorem chars_sourceOf (bases : String → List String) (b : Box) (bs : List Box) :
    '\n' :: (sourceOf bases [] (b :: bs)).chars =
      broken ([""].intercalate ((b :: bs).map fun b => b.lines (bases b.label))) := by
  rw [List.map_cons, intercalate_cons, List.flatMap_map, broken_append, broken_lines [],
    show (fun c : Box => [""] ++ c.lines (bases c.label)) = fun c => "" :: c.lines (bases c.label)
      from rfl, ← chars_sourceOf_spaced]
  simp [sourceOf, Source.chars, Box.heading]

/-! ## What the source says -/

def Box.sort (b : Box) : TypeSort := if b.isInterface then .interfaceType else .classType

/-- The member lines of a box with the types that every property and every stub has. -/
def Box.members (b : Box) : Members :=
  { attributes := if b.isInterface then [] else b.attributes.map (memberLine "+" · "string")
    methods := b.methods.map (memberLine "+" · "void") }

theorem line_propertyOf (name : String) :
    (propertyOf name).line = memberLine "+" name "string" := by
  have hmark : visibilityMark "public" = "+" := by decide +kernel
  show memberLine (visibilityMark "public") name (String.ofList ("string".toList ++ [])) = _
  rw [hmark, List.append_nil, String.ofList_toList]

theorem line_stubOf (lead : List Char) (name : String) :
    (stubOf lead name).line = memberLine "+" name "void" := by
  have hmark : visibilityMark "public" = "+" := by decide +kernel
  show memberLine (visibilityMark "public") name (String.ofList ("void".toList ++ [])) = _
  rw [hmark, List.append_nil, String.ofList_toList]

theorem lines_ofMembers (ps ms : List SourceMember) (hps : ∀ m ∈ ps, m.form.isProperty = true)
    (hms : ∀ m ∈ ms, m.form.isProperty = false) :
    (Source.ofMembers (ps ++ ms)).lines =
      { attributes := ps.map SourceMember.line, methods := ms.map SourceMember.line } := by
  have hps' : ps.filter (fun m => !m.form.isProperty) = [] :=
    List.filter_eq_nil_iff.mpr fun m hm => by simp [hps m hm]
  have hms' : ms.filter (·.form.isProperty) = [] :=
    List.filter_eq_nil_iff.mpr fun m hm => by simp [hms m hm]
  unfold Source.lines
  rw [members_ofMembers, List.filter_append, List.filter_append, hps', hms', List.append_nil,
    List.nil_append, List.filter_eq_self.mpr hps,
    List.filter_eq_self.mpr fun m hm => by simp [hms m hm]]

theorem mem_stubsOf {lead : List Char} {names : List String} {m : SourceMember}
    (h : m ∈ stubsOf lead names) : ∃ l name, name ∈ names ∧ m = stubOf l name ∧
      (l = lead ∨ l = '\n' :: indent) := by
  cases names with
  | nil => exact absurd h (by simp [stubsOf])
  | cons name names =>
    rcases List.mem_cons.mp h with rfl | h
    · exact ⟨lead, name, by simp, rfl, Or.inl rfl⟩
    · obtain ⟨other, hmem, rfl⟩ := List.mem_map.mp h
      exact ⟨_, other, List.mem_cons_of_mem _ hmem, rfl, Or.inr rfl⟩

theorem map_line_stubsOf (lead : List Char) (names : List String) :
    (stubsOf lead names).map SourceMember.line = names.map (memberLine "+" · "void") := by
  cases names with
  | nil => rfl
  | cons name names =>
    rw [stubsOf, List.map_cons, List.map_cons, List.map_map, line_stubOf]
    exact congrArg (memberLine "+" name "void" :: names.map ·) (funext (line_stubOf _))

theorem lines_declared (b : Box) : (Source.ofMembers b.declared).lines = b.members := by
  unfold Box.declared Box.members
  cases b.isInterface with
  | true =>
    have hmethods : ∀ m ∈ b.methods.map signatureOf, m.form.isProperty = false := by
      intro m hm
      obtain ⟨_, _, rfl⟩ := List.mem_map.mp hm
      rfl
    have hlines := lines_ofMembers [] (b.methods.map signatureOf) (by simp) hmethods
    rw [if_pos rfl, if_pos rfl, ← List.nil_append (b.methods.map signatureOf), hlines,
      List.map_map]
    exact congrArg (fun f => (⟨[], b.methods.map f⟩ : Members)) (funext (line_stubOf indent))
  | false =>
    rw [if_neg Bool.false_ne_true, if_neg Bool.false_ne_true, lines_ofMembers, List.map_map,
      map_line_stubsOf]
    · exact congrArg (fun f => (⟨b.attributes.map f, _⟩ : Members)) (funext line_propertyOf)
    · intro m hm
      obtain ⟨_, _, rfl⟩ := List.mem_map.mp hm
      rfl
    · intro m hm
      obtain ⟨_, _, _, rfl, _⟩ := mem_stubsOf hm
      rfl

/-- The types of a sort are the boxes of that sort. The leads do not matter for what they say. -/
theorem map_sorted_sourceOf {α : Type} {f : Heading × Source → α} {bases : String → List String}
    (hf : ∀ b s lead lead', f (Box.heading lead (bases b.label) b, s) =
      f (Box.heading lead' (bases b.label) b, s)) (sort : TypeSort) (lead : List Char)
    (bs : List Box) :
    ((sourceOf bases lead bs).sorted sort).map f =
      (bs.filter fun b => b.sort = sort).map fun b =>
        f (b.heading [] (bases b.label), .ofMembers b.declared) := by
  unfold Source.sorted
  -- over the boxes, for any blanks before the first one, since the next ones have their own
  induction bs generalizing lead with
  | nil => rfl
  | cons b bs ih =>
    have htypes : (sourceOf bases lead (b :: bs)).types =
        (b.heading lead (bases b.label), .ofMembers b.declared) ::
          (sourceOf bases ['\n', '\n'] bs).types := by
      rw [sourceOf, Source.types, types_ofMembers, List.nil_append]
    rw [htypes]
    by_cases hsort : b.sort = sort
    · rw [List.filter_cons_of_pos (by exact decide_eq_true hsort),
        List.filter_cons_of_pos (by exact decide_eq_true hsort), List.map_cons, List.map_cons, ih,
        hf b _ lead []]
    · have hnot : ¬ decide (b.sort = sort) = true := by simpa using hsort
      rw [List.filter_cons_of_neg (by exact hnot), List.filter_cons_of_neg (by exact hnot), ih]

theorem map_name_types_sourceOf (bases : String → List String) (lead : List Char)
    (bs : List Box) : (sourceOf bases lead bs).types.map (·.1.name) = bs.map Box.label := by
  induction bs generalizing lead with
  | nil => rfl
  | cons b bs ih =>
    rw [sourceOf, Source.types, types_ofMembers, List.nil_append, List.map_cons, List.map_cons, ih]
    rfl

/-! ## Well-formedness -/

theorem wellFormed_member {lead : List Char} {type name : String} {form : MemberForm}
    (hlead : lead = indent ∨ lead = '\n' :: indent) (htype : type = "string" ∨ type = "void")
    (hname : IsWord name.toList) (hform : form.parameters = []) :
    SourceMember.WellFormed ⟨lead, "public", ⟨type, []⟩, name, form⟩ := by
  have hblank : ∀ c ∈ lead, isBlank c = true := by
    rcases hlead with rfl | rfl <;> decide
  have haccess : "public".toList ∈ accessWords := by decide +kernel
  obtain ⟨hspelled, hnotType, hnotAccess, hnotModifier⟩ : IsWord type.toList ∧
      type.toList ∉ nestedTypeWords ∧ type.toList ∉ accessWords ∧
        type.toList ∉ memberModifiers := by
    rcases htype with rfl | rfl <;> decide +kernel
  refine ⟨hblank, haccess, ⟨hspelled, by simp⟩, hname, hnotType, hnotAccess, hnotModifier, ?_⟩
  intro p hp
  rw [hform] at hp
  exact absurd hp (by simp)

theorem wellFormed_declared {b : Box}
    (hb : ∀ name ∈ b.attributes ++ b.methods, IsWord name.toList) :
    ∀ m ∈ b.declared, m.WellFormed := by
  intro m hm
  -- signatures of an interface; properties and stubs of a class
  unfold Box.declared at hm
  split at hm
  · obtain ⟨name, hname, rfl⟩ := List.mem_map.mp hm
    exact wellFormed_member (Or.inl rfl) (Or.inr rfl) (hb name (List.mem_append_right _ hname))
      rfl
  · rcases List.mem_append.mp hm with hm | hm
    · obtain ⟨name, hname, rfl⟩ := List.mem_map.mp hm
      exact wellFormed_member (Or.inl rfl) (Or.inl rfl) (hb name (List.mem_append_left _ hname))
        rfl
    · obtain ⟨lead, name, hname, rfl, hlead⟩ := mem_stubsOf hm
      refine wellFormed_member ?_ (Or.inr rfl) (hb name (List.mem_append_right _ hname)) rfl
      rcases hlead with rfl | rfl
      · split
        · exact Or.inl rfl
        · exact Or.inr rfl
      · exact Or.inr rfl

theorem wellFormed_sourceOf {bases : String → List String} {lead : List Char} {bs : List Box}
    (hlead : ∀ c ∈ lead, isBlank c = true) (hlabels : ∀ b ∈ bs, IsWord b.label.toList)
    (hmembers : ∀ b ∈ bs, ∀ name ∈ b.attributes ++ b.methods, IsWord name.toList)
    (hbases : ∀ b ∈ bs, b.isInterface = false → ∀ name ∈ bases b.label,
      isIdentifier name.toList = true ∧ name ≠ "where") :
    (sourceOf bases lead bs).WellFormed := by
  have hbreak : ∀ c ∈ ['\n'], isBlank c = true := by decide
  induction bs generalizing lead with
  | nil => trivial
  | cons b bs ih =>
    refine ⟨⟨hlead, hlabels b (by simp), ?_, hbreak, hbreak⟩,
      wellFormed_ofMembers (wellFormed_declared (hmembers b (by simp))),
      ih (by decide) (fun c hc => hlabels c (List.mem_cons_of_mem _ hc))
        (fun c hc => hmembers c (List.mem_cons_of_mem _ hc))
        fun c hc => hbases c (List.mem_cons_of_mem _ hc)⟩
    -- only a class has bases, and its bases are names that can be read
    intro t ht
    cases hkind : b.isInterface with
    | true => exact absurd ht (by simp [Box.heading, hkind])
    | false =>
      have hrefs : (b.heading lead (bases b.label)).bases =
          (bases b.label).map fun name => ⟨name, []⟩ := by simp [Box.heading, hkind]
      rw [hrefs] at ht
      obtain ⟨name, hname, rfl⟩ := List.mem_map.mp ht
      obtain ⟨hid, hwhere⟩ := hbases b (by simp) hkind name hname
      exact ⟨hid, by simp, by simpa using hwhere⟩

end ClassAtlas.Code
