import ClassAtlas.Code.Reader
import ClassAtlas.Proofs.Text.Words

/-!
# Sources

A source is what class declarations look like before they are a text: a tree of types, nested to any
depth, where the members of a type stand between the types nested in it. The statements about
reading declarations say what is read from the text of a source.

The layout of the text is free. Any blanks, none included, may stand before a declaration and before
the two braces of a type, so a source on one line is a source as well as one with a line for every
member.
-/

namespace ClassAtlas.Code

open Text

/-- Parts with commas between them. -/
def listed : List (List Char) → List Char
  | [] => []
  | p :: ps => p ++ ps.flatMap fun q => ',' :: ' ' :: q

/-- A type as it is written: a name, perhaps with type arguments. -/
structure TypeRef where
  name : String
  arguments : List String := []
deriving Repr, DecidableEq

/-- The type arguments in angle brackets. -/
def TypeRef.argumentChars (t : TypeRef) : List Char :=
  if t.arguments = [] then []
  else '<' :: (listed (t.arguments.map String.toList) ++ ['>'])

def TypeRef.chars (t : TypeRef) : List Char := t.name.toList ++ t.argumentChars

/-! ## Members -/

/-- A parameter of a method. -/
structure Parameter where
  type : TypeRef
  name : String
deriving Repr, DecidableEq

def Parameter.chars (p : Parameter) : List Char := p.type.chars ++ ' ' :: p.name.toList

/-- What stands behind the parameters of a method. -/
inductive MethodBody where
  | empty
  | stub
  | missing
deriving Repr, DecidableEq

def MethodBody.chars : MethodBody → List Char
  | .empty => " \x7b \x7d".toList
  | .stub => "\n    \x7b\n        // Method body\n    \x7d".toList
  | .missing => ";".toList

/-- What makes a member a property or a method. -/
inductive MemberForm where
  | property
  | method (parameters : List Parameter) (body : MethodBody)
deriving Repr, DecidableEq

/-- The text behind the name of a member. -/
def MemberForm.chars : MemberForm → List Char
  | .property => " \x7b get; set; \x7d".toList
  | .method parameters body => '(' :: (listed (parameters.map Parameter.chars) ++ ')' :: body.chars)

def MemberForm.isProperty : MemberForm → Bool
  | .property => true
  | .method _ _ => false

def MemberForm.parameters : MemberForm → List Parameter
  | .property => []
  | .method parameters _ => parameters

/-- The declaration of a member, with the blanks before it. -/
structure SourceMember where
  lead : List Char
  access : String
  type : TypeRef
  name : String
  form : MemberForm
deriving Repr, DecidableEq

/-- The text from the access word on. -/
def SourceMember.bareChars (m : SourceMember) : List Char :=
  m.access.toList ++ ' ' :: (m.type.chars ++ ' ' :: (m.name.toList ++ m.form.chars))

def SourceMember.chars (m : SourceMember) : List Char := m.lead ++ m.bareChars

/-- The line that shows the member in a diagram. -/
def SourceMember.line (m : SourceMember) : String :=
  memberLine (visibilityMark m.access) m.name (String.ofList m.type.chars)

/-! ## Types -/

/-- The sorts of types. Only the first two become boxes of a diagram. -/
inductive TypeSort where
  | classType
  | interfaceType
  | structType
  | enumType
deriving Repr, DecidableEq

/-- The word that declares a type. -/
def TypeSort.word : TypeSort → List Char
  | .classType => "class".toList
  | .interfaceType => "interface".toList
  | .structType => "struct".toList
  | .enumType => "enum".toList

/-- The declaration of a type up to its opening brace, and the blanks before the closing one. -/
structure Heading where
  lead : List Char
  sort : TypeSort
  name : String
  bases : List TypeRef
  gap : List Char
  close : List Char
deriving Repr, DecidableEq

/-- The base list with its colon. -/
def Heading.baseChars (h : Heading) : List Char :=
  if h.bases = [] then [] else ' ' :: ':' :: ' ' :: listed (h.bases.map TypeRef.chars)

/-- The text behind the name. -/
def Heading.tailChars (h : Heading) : List Char := h.baseChars ++ h.gap

/-- The text from the access word on, without the opening brace. -/
def Heading.bareChars (h : Heading) : List Char :=
  "public".toList ++ ' ' :: (h.sort.word ++ ' ' :: (h.name.toList ++ h.tailChars))

/-- A tree of declarations: each one with those that follow it, and a type with those inside it. -/
inductive Source where
  | nil
  | member (m : SourceMember) (rest : Source)
  | type (h : Heading) (inner rest : Source)
deriving Repr, DecidableEq

namespace Source

/-- The text of a source. -/
def chars : Source → List Char
  | nil => []
  | member m rest => m.chars ++ rest.chars
  | type h inner rest =>
    h.lead ++ (h.bareChars ++ '{' :: (inner.chars ++ (h.close ++ '}' :: rest.chars)))

/-- The types of a source with what is inside them, at any depth, in the order of the text. -/
def types : Source → List (Heading × Source)
  | nil => []
  | member _ rest => rest.types
  | type h inner rest => (h, inner) :: (inner.types ++ rest.types)

/-- The members of a source that are in none of its types. -/
def members : Source → List SourceMember
  | nil => []
  | member m rest => m :: rest.members
  | type _ _ rest => rest.members

/-- The member lines of the box of a type whose body is the source. -/
def lines (s : Source) : Members :=
  { attributes := (s.members.filter (·.form.isProperty)).map SourceMember.line
    methods := (s.members.filter fun m => !m.form.isProperty).map SourceMember.line }

/-- The types of a sort. -/
def sorted (sort : TypeSort) (s : Source) : List (Heading × Source) :=
  s.types.filter fun t => t.1.sort = sort

/-- The names of the types of a sort. -/
def names (sort : TypeSort) (s : Source) : List String := (s.sorted sort).map (·.1.name)

end Source

theorem chars_type_append (h : Heading) (inner next : Source) (rest : List Char) :
    (Source.type h inner next).chars ++ rest = h.lead ++ (h.bareChars ++
      '{' :: (inner.chars ++ (h.close ++ '}' :: (next.chars ++ rest)))) := by
  simp [Source.chars]

/-- The relations of a class to its bases, given the names of the classes and the interfaces. Only
these names count, and a base that is neither an interface nor the first one counts for nothing. -/
def Heading.relations (classes interfaces : List String) (h : Heading) : List Relation :=
  h.bases.zipIdx.filterMap fun (base, i) =>
    if base.name ∉ classes ∧ base.name ∉ interfaces then none
    else if base.name ∈ interfaces ∨ isInterfaceName base.name then
      some ⟨h.name, base.name, .implementation⟩
    else if i = 0 then some ⟨h.name, base.name, .inheritance⟩
    else none

/-- The relations that the classes of a source declare. -/
def Source.relations (s : Source) : List Relation :=
  (s.sorted .classType).flatMap fun t =>
    t.1.relations (s.names .classType) (s.names .interfaceType)

/-! ## Well-formed sources -/

/-- The name and the type arguments are words. -/
structure TypeRef.Spelled (t : TypeRef) : Prop where
  name : IsWord t.name.toList
  arguments : ∀ a ∈ t.arguments, IsWord a.toList

/-- A base is an identifier, and no word of it begins the constraints on type parameters. -/
structure TypeRef.IsBase (t : TypeRef) : Prop where
  name : isIdentifier t.name.toList = true
  arguments : ∀ a ∈ t.arguments, IsWord a.toList
  notWhere : ∀ a ∈ t.name :: t.arguments, a ≠ "where"

/-- The type of a parameter is no word that declares a type. -/
structure Parameter.WellFormed (p : Parameter) : Prop where
  type : p.type.Spelled
  name : IsWord p.name.toList
  notType : p.type.name.toList ∉ nestedTypeWords

/-- The type of a member is no keyword. The name may be one. -/
structure SourceMember.WellFormed (m : SourceMember) : Prop where
  lead : ∀ c ∈ m.lead, isBlank c = true
  access : m.access.toList ∈ accessWords
  type : m.type.Spelled
  name : IsWord m.name.toList
  notType : m.type.name.toList ∉ nestedTypeWords
  notAccess : m.type.name.toList ∉ accessWords
  notModifier : m.type.name.toList ∉ memberModifiers
  parameters : ∀ p ∈ m.form.parameters, p.WellFormed

/-- The name of a type is any word, the bases are bases. -/
structure Heading.WellFormed (h : Heading) : Prop where
  lead : ∀ c ∈ h.lead, isBlank c = true
  name : IsWord h.name.toList
  bases : ∀ b ∈ h.bases, b.IsBase
  gap : ∀ c ∈ h.gap, isBlank c = true
  close : ∀ c ∈ h.close, isBlank c = true

/-- All declarations of a source are well-formed. -/
def Source.WellFormed : Source → Prop
  | .nil => True
  | .member m rest => m.WellFormed ∧ rest.WellFormed
  | .type h inner rest => h.WellFormed ∧ inner.WellFormed ∧ rest.WellFormed

theorem TypeRef.IsBase.spelled {t : TypeRef} (h : t.IsBase) : t.Spelled :=
  ⟨isWord_of_isIdentifier h.name, h.arguments⟩

/-! ## The characters of types -/

/-- The text has word characters and some marks in it, and nothing else. -/
def MadeOf (marks u : List Char) : Prop := ∀ c ∈ u, isWord c = true ∨ c ∈ marks

section

variable {marks u v w : List Char}

theorem madeOf_word (hw : IsWord w) : MadeOf marks w := fun c hc => Or.inl (hw.2 c hc)

theorem MadeOf.append (hu : MadeOf marks u) (hv : MadeOf marks v) : MadeOf marks (u ++ v) := by
  intro c hc
  rcases List.mem_append.mp hc with hc | hc
  · exact hu c hc
  · exact hv c hc

theorem MadeOf.cons {c : Char} (hc : c ∈ marks) (hu : MadeOf marks u) : MadeOf marks (c :: u) := by
  intro d hd
  rcases List.mem_cons.mp hd with rfl | hd
  · exact Or.inr hc
  · exact hu d hd

theorem MadeOf.mono {marks' : List Char} (hu : MadeOf marks u) (h : ∀ c ∈ marks, c ∈ marks') :
    MadeOf marks' u := fun c hc => (hu c hc).imp_right (h c)

/-- Marks that are not among those of the text do not stand in it. -/
theorem MadeOf.avoids (hu : MadeOf marks u) (others : List Char)
    (hword : ∀ c ∈ others, isWord c = false) (hmarks : ∀ c ∈ marks, c ∉ others) :
    ∀ c ∈ u, c ∉ others := by
  intro c hc hin
  rcases hu c hc with h | h
  · rw [hword c hin] at h
    exact absurd h (by simp)
  · exact hmarks c h hin

theorem madeOf_listed {parts : List (List Char)} (hcomma : ',' ∈ marks) (hspace : ' ' ∈ marks)
    (hparts : ∀ p ∈ parts, MadeOf marks p) : MadeOf marks (listed parts) := by
  cases parts with
  | nil => exact fun c hc => absurd hc (by simp [listed])
  | cons p ps =>
    refine (hparts p (by simp)).append ?_
    intro c hc
    obtain ⟨q, hq, hcq⟩ := List.mem_flatMap.mp hc
    exact ((hparts q (List.mem_cons_of_mem _ hq)).cons hspace).cons hcomma c hcq

end

/-- The marks in a type. -/
def typeMarks : List Char := [',', ' ', '<', '>']

theorem madeOf_arguments {t : TypeRef} (ht : t.Spelled) :
    MadeOf [',', ' '] (listed (t.arguments.map String.toList)) := by
  refine madeOf_listed (by simp) (by simp) ?_
  intro p hp
  obtain ⟨a, ha, rfl⟩ := List.mem_map.mp hp
  exact madeOf_word (ht.arguments a ha)

theorem madeOf_typeRef {t : TypeRef} (ht : t.Spelled) : MadeOf typeMarks t.chars := by
  refine (madeOf_word ht.name).append ?_
  unfold TypeRef.argumentChars
  split
  · exact fun c hc => absurd hc (by simp)
  · have harguments : MadeOf typeMarks (listed (t.arguments.map String.toList)) :=
      (madeOf_arguments ht).mono (by decide)
    exact (harguments.append fun c hc => Or.inr (by simp_all [typeMarks])).cons (by decide)

theorem madeOf_parameter {p : Parameter} (hp : p.WellFormed) : MadeOf typeMarks p.chars :=
  (madeOf_typeRef hp.type).append ((madeOf_word hp.name).cons (by decide))

theorem madeOf_types {ts : List TypeRef} (hts : ∀ t ∈ ts, t.Spelled) :
    MadeOf typeMarks (listed (ts.map TypeRef.chars)) := by
  refine madeOf_listed (by decide) (by decide) ?_
  intro p hp
  obtain ⟨t, ht, rfl⟩ := List.mem_map.mp hp
  exact madeOf_typeRef (hts t ht)

theorem madeOf_parameters {ps : List Parameter} (hps : ∀ p ∈ ps, p.WellFormed) :
    MadeOf typeMarks (listed (ps.map Parameter.chars)) := by
  refine madeOf_listed (by decide) (by decide) ?_
  intro q hq
  obtain ⟨p, hp, rfl⟩ := List.mem_map.mp hq
  exact madeOf_parameter (hps p hp)

/-! ## Whether a given source is well-formed -/

/-- Whether a word is among some others is decided by comparing them. -/
def decidableAmong (word : List Char) (words : List (List Char)) : Decidable (word ∈ words) :=
  decidable_of_iff (words.contains word = true) List.contains_iff_mem

instance (t : TypeRef) : Decidable t.Spelled :=
  decidable_of_iff (IsWord t.name.toList ∧ ∀ a ∈ t.arguments, IsWord a.toList)
    ⟨fun ⟨a, b⟩ => ⟨a, b⟩, fun ⟨a, b⟩ => ⟨a, b⟩⟩

instance (t : TypeRef) : Decidable t.IsBase :=
  decidable_of_iff (isIdentifier t.name.toList = true ∧ (∀ a ∈ t.arguments, IsWord a.toList) ∧
    ∀ a ∈ t.name :: t.arguments, a ≠ "where")
    ⟨fun ⟨a, b, c⟩ => ⟨a, b, c⟩, fun ⟨a, b, c⟩ => ⟨a, b, c⟩⟩

instance (p : Parameter) : Decidable p.WellFormed :=
  haveI := decidableAmong
  decidable_of_iff (p.type.Spelled ∧ IsWord p.name.toList ∧ p.type.name.toList ∉ nestedTypeWords)
    ⟨fun ⟨a, b, c⟩ => ⟨a, b, c⟩, fun ⟨a, b, c⟩ => ⟨a, b, c⟩⟩

instance (m : SourceMember) : Decidable m.WellFormed :=
  haveI := decidableAmong
  decidable_of_iff ((∀ c ∈ m.lead, isBlank c = true) ∧ m.access.toList ∈ accessWords ∧
    m.type.Spelled ∧ IsWord m.name.toList ∧ m.type.name.toList ∉ nestedTypeWords ∧
    m.type.name.toList ∉ accessWords ∧ m.type.name.toList ∉ memberModifiers ∧
    ∀ p ∈ m.form.parameters, p.WellFormed)
    ⟨fun ⟨a, b, c, d, e, f, g, h⟩ => ⟨a, b, c, d, e, f, g, h⟩,
      fun ⟨a, b, c, d, e, f, g, h⟩ => ⟨a, b, c, d, e, f, g, h⟩⟩

instance (h : Heading) : Decidable h.WellFormed :=
  decidable_of_iff ((∀ c ∈ h.lead, isBlank c = true) ∧ IsWord h.name.toList ∧
    (∀ b ∈ h.bases, b.IsBase) ∧ (∀ c ∈ h.gap, isBlank c = true) ∧
    ∀ c ∈ h.close, isBlank c = true)
    ⟨fun ⟨a, b, c, d, e⟩ => ⟨a, b, c, d, e⟩, fun ⟨a, b, c, d, e⟩ => ⟨a, b, c, d, e⟩⟩

instance Source.decidableWellFormed : (s : Source) → Decidable s.WellFormed
  | .nil => isTrue trivial
  | .member m rest =>
    have := decidableWellFormed rest
    inferInstanceAs (Decidable (m.WellFormed ∧ rest.WellFormed))
  | .type h inner rest =>
    have := decidableWellFormed inner
    have := decidableWellFormed rest
    inferInstanceAs (Decidable (h.WellFormed ∧ inner.WellFormed ∧ rest.WellFormed))

end ClassAtlas.Code
