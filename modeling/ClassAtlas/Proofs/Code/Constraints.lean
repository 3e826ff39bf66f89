import ClassAtlas.Proofs.Code.AutoProperties
import ClassAtlas.Proofs.Code.ClassKeyword
import ClassAtlas.Proofs.Code.Reading

/-!
# Constraints that are keywords

A type parameter may be constrained to be a class, and the word for that is the keyword of a class.
As long as a comma, a brace or the end of the text follows, nothing is declared by it. But where it
ends a clause and another clause begins behind it, the reader takes the word that begins that clause
for the name of a class, and the header of the real one is cut off there. Its block is then found
for the class that is none.

All patterns of the reader look at the clauses in the same way: they find nothing but at these
places. So the text behind the word that begins a clause is told by what a pattern does at such a
place, and by how many of them are left.
-/

namespace ClassAtlas.Code

open Text

variable {α : Type} {p : Pattern α} {before : Option Char} {s t rest : List Char}

/-! ## Clauses -/

/-- What a type parameter is constrained to be: a class, a value, something that can be constructed,
or a type of some name. -/
inductive Constraint where
  | reference
  | value
  | construction
  | named (name : String)
deriving Repr, DecidableEq

namespace Constraint

def chars : Constraint → List Char
  | .reference => "class".toList
  | .value => "struct".toList
  | .construction => "new()".toList
  | .named name => name.toList

/-- A name is a word and does not declare a type. -/
def WellFormed : Constraint → Prop
  | .named name => IsWord name.toList ∧ name.toList ∉ typeWords
  | _ => True

end Constraint

/-- The constraints of one type parameter. -/
structure Clause where
  lead : List Char
  parameter : String
  others : List Constraint
  last : Constraint
  isGap : IsGap lead
  isWord_parameter : IsWord parameter.toList
  wellFormed : ∀ k ∈ last :: others, k.WellFormed

namespace Clause

/-- The text between the word that begins the clause and its last constraint. -/
def head (c : Clause) : List Char :=
  [' '] ++ (c.parameter.toList ++
    ([' ', ':', ' '] ++ c.others.flatMap fun k => k.chars ++ [',', ' ']))

/-- The text behind the word that begins the clause. -/
def behind (c : Clause) : List Char := c.head ++ c.last.chars

def chars (c : Clause) : List Char := c.lead ++ ("where".toList ++ c.behind)

/-- The last constraint is the keyword of a class. -/
def EndsInClass (c : Clause) : Prop := c.last = .reference

instance (c : Clause) : Decidable c.EndsInClass := inferInstanceAs (Decidable (_ = _))

end Clause

/-- The number of clauses that end in the keyword of a class and have another clause behind them. -/
def cuts : List Clause → Nat
  | [] => 0
  | [_] => 0
  | c :: d :: cs => (if c.EndsInClass then 1 else 0) + cuts (d :: cs)

/-! ## Clauses are silent -/

namespace Constraint

variable {k : Constraint}

theorem silent (hk : k.WellFormed) (hr : WordEnds rest)
    (hquiet : k ≠ .reference ∨ wordFollows rest = false) :
    Silent typeWords before k.chars rest := by
  have hwords := isWord_typeWords
  cases k with
  | reference =>
    exact silent_last hwords isWord_class hr (hquiet.resolve_left (by simp))
  | value => exact silent_word hwords (by decide +kernel) (by decide +kernel) hr
  | construction =>
    have hsplit : "new()".toList = "new".toList ++ ['(', ')'] := by decide +kernel
    show Silent typeWords before "new()".toList rest
    rw [hsplit]
    exact Nowhere.append (silent_word hwords (by decide +kernel) (by decide +kernel) (by rfl))
      (silent_marks hwords (by decide))
  | named name => exact silent_word hwords hk.1 hk.2 hr

theorem plain (hk : k.WellFormed) : Plain k.chars := by
  cases k with
  | reference => exact plain_of_isWord isWord_class
  | value => exact plain_of_isWord (by decide +kernel)
  | construction => exact (by decide +kernel : Plain "new()".toList)
  | named name => exact plain_of_isWord hk.1

end Constraint

namespace Clause

variable {c : Clause}

theorem silent_head (c : Clause) : Silent typeWords before c.head rest := by
  have hwords := isWord_typeWords
  -- the induction runs over the constraints before the last, whatever stands before them
  have hothers : ∀ ks : List Constraint, (∀ k ∈ ks, k.WellFormed) → ∀ b,
      Silent typeWords b (ks.flatMap fun k => k.chars ++ [',', ' ']) rest := by
    intro ks hks
    induction ks with
    | nil => exact fun _ => trivial
    | cons k ks ih =>
      intro b
      rw [List.flatMap_cons]
      refine Nowhere.append (Nowhere.append (k.silent (hks k (by simp)) (by rfl) (.inr (by rfl)))
        (silent_marks hwords (by decide))) ?_
      exact ih (fun k' hk' => hks k' (List.mem_cons_of_mem _ hk')) _
  refine Nowhere.append (silent_marks hwords (by decide)) (Nowhere.append
    (silent_before_mark hwords c.isWord_parameter ⟨by rfl, by rfl⟩)
    (Nowhere.append (silent_marks hwords (by decide)) (hothers c.others ?_ _)))
  exact fun k hk => c.wellFormed k (List.mem_cons_of_mem _ hk)

theorem lastOf_head (c : Clause) : lastOf before c.head = some ' ' := by
  have hothers : ∀ ks : List Constraint,
      lastOf (some ' ') (ks.flatMap fun k => k.chars ++ [',', ' ']) = some ' ' := by
    intro ks
    induction ks with
    | nil => rfl
    | cons k ks ih =>
      rw [List.flatMap_cons, lastOf_append, lastOf_append]
      exact ih
  unfold head
  rw [lastOf_append, lastOf_append, lastOf_append]
  exact hothers c.others

theorem silent_behind (c : Clause) (hr : WordEnds rest)
    (hquiet : ¬ c.EndsInClass ∨ wordFollows rest = false) :
    Silent typeWords before c.behind rest :=
  Nowhere.append c.silent_head (Constraint.silent (c.wellFormed _ (by simp)) hr hquiet)

theorem plain_head (c : Clause) : Plain c.head := by
  have hothers : Plain (c.others.flatMap fun k => k.chars ++ [',', ' ']) := by
    intro d hd
    obtain ⟨k, hk, hd⟩ := List.mem_flatMap.mp hd
    exact (Constraint.plain (c.wellFormed k (List.mem_cons_of_mem _ hk))).append (by decide) d hd
  exact Plain.append (by decide) ((plain_of_isWord c.isWord_parameter).append
    (Plain.append (by decide) hothers))

theorem plain_behind (c : Clause) : Plain c.behind :=
  c.plain_head.append (Constraint.plain (c.wellFormed _ (by simp)))

theorem wordEnds_behind (c : Clause) (s : List Char) : WordEnds (c.behind ++ s) := by rfl

theorem isWord_where : IsWord "where".toList := by decide +kernel

/-- The word that begins a clause is silent, with the blanks before it. -/
theorem silent_lead (c : Clause) (hr : WordEnds rest) :
    Silent typeWords before (c.lead ++ "where".toList) rest :=
  Nowhere.append (silent_blanks isWord_typeWords c.isGap.2)
    (silent_word isWord_typeWords isWord_where (by decide +kernel) hr)

theorem wordEnds_lead (c : Clause) (s : List Char) : WordEnds (c.lead ++ s) :=
  wordEnds_of_blanks (c.isGap.not_blanksEnd s)

end Clause

/-! ## Behind the word that begins a clause -/

/-- The text of some clauses, and what stands behind them. -/
def clauseChars (cs : List Clause) (rest : List Char) : List Char := cs.flatMap Clause.chars ++ rest

@[simp] theorem clauseChars_nil (rest : List Char) : clauseChars [] rest = rest := rfl

theorem clauseChars_cons (d : Clause) (cs : List Clause) (rest : List Char) :
    clauseChars (d :: cs) rest =
      (d.lead ++ "where".toList) ++ (d.behind ++ clauseChars cs rest) := by
  unfold clauseChars Clause.chars
  rw [List.flatMap_cons]
  simp only [List.append_assoc]

theorem wordEnds_clauseChars (d : Clause) (cs : List Clause) (rest : List Char) :
    WordEnds (clauseChars (d :: cs) rest) := by
  rw [clauseChars_cons, List.append_assoc]
  exact d.wordEnds_lead _

/-- Nothing is found in the word that begins a clause. -/
theorem occurrences_where (hp : Declarative p) (d : Clause) (cs : List Clause) (rest : List Char) :
    occurrencesFrom p before (clauseChars (d :: cs) rest) =
      occurrencesFrom p (some 'e') (d.behind ++ clauseChars cs rest) := by
  rw [clauseChars_cons,
    occurrencesFrom_of_nowhere (hp.nowhere (d.silent_lead (d.wordEnds_behind _))), lastOf_append]
  rfl

/-- A header goes on behind it. -/
theorem afterHeader_where (d : Clause) (cs : List Clause) (rest : List Char) :
    afterHeader typeWords before (clauseChars (d :: cs) rest) =
      afterHeader typeWords (some 'e') (d.behind ++ clauseChars cs rest) := by
  have hplain : Plain (d.lead ++ "where".toList) :=
    (plain_of_blank d.isGap.2).append (plain_of_isWord Clause.isWord_where)
  rw [clauseChars_cons, afterHeader_of_silent hplain (d.silent_lead (d.wordEnds_behind _)),
    lastOf_append]
  rfl

/-- A cut: the keyword at the end of one clause and the word that begins the next one. -/
def cutChars (d : Clause) (cs : List Clause) (rest : List Char) : List Char :=
  "class".toList ++ (d.lead ++ ("where".toList ++ (d.behind ++ clauseChars cs rest)))

variable {c d : Clause} {cs : List Clause}

theorem behind_cut (h : c.EndsInClass) (d : Clause) (cs : List Clause) (rest : List Char) :
    c.behind ++ clauseChars (d :: cs) rest = c.head ++ cutChars d cs rest := by
  have hlast : c.last.chars = "class".toList := by
    rw [show c.last = .reference from h]
    rfl
  unfold Clause.behind cutChars
  rw [clauseChars_cons, hlast]
  simp only [List.append_assoc]

/-- Behind a clause that is cut, a scan goes on at the cut. -/
theorem occurrences_cut (hp : Declarative p) (h : c.EndsInClass) (d : Clause) (cs : List Clause)
    (rest : List Char) :
    occurrencesFrom p before (c.behind ++ clauseChars (d :: cs) rest) =
      occurrencesFrom p (some ' ') (cutChars d cs rest) := by
  rw [behind_cut h, occurrencesFrom_of_nowhere (hp.nowhere c.silent_head), c.lastOf_head]

/-- Behind any other clause it goes on behind the word that begins the next one. -/
theorem occurrences_uncut (hp : Declarative p) (h : ¬ c.EndsInClass) (d : Clause)
    (cs : List Clause) (rest : List Char) :
    occurrencesFrom p before (c.behind ++ clauseChars (d :: cs) rest) =
      occurrencesFrom p (some 'e') (d.behind ++ clauseChars cs rest) := by
  have hbehind : Silent typeWords before c.behind (clauseChars (d :: cs) rest) :=
    c.silent_behind (wordEnds_clauseChars d cs rest) (.inl h)
  rw [occurrencesFrom_of_nowhere (hp.nowhere hbehind), occurrences_where hp]

/-- Where a pattern does not match at a cut, it is passed over. -/
theorem occurrences_pass_cut (hp : Declarative p)
    (hnot : ¬ Matches p (some ' ') (cutChars d cs rest)) :
    occurrencesFrom p (some ' ') (cutChars d cs rest) =
      occurrencesFrom p (some 'e') (d.behind ++ clauseChars cs rest) :=
  occurrences_pass_class d.isGap Clause.isWord_where (d.wordEnds_behind _) hp
    (.inl (by decide +kernel)) hnot

section

variable (hmark : MarkFollows rest) (hrest : ∀ b, Silent typeWords b rest [])

include hmark

theorem afterHeader_clauses (hrest : ∀ b, afterHeader typeWords b rest = some s) (c : Clause)
    (cs : List Clause) :
    afterHeader typeWords before (c.behind ++ clauseChars cs rest) =
      if cuts (c :: cs) = 0 then some s else none := by
  induction cs generalizing c before with
  | nil =>
    have hsilent : Silent typeWords before c.behind rest :=
      c.silent_behind hmark.1 (.inr hmark.2)
    rw [clauseChars_nil, afterHeader_of_silent c.plain_behind hsilent, hrest, cuts, if_pos rfl]
  | cons d cs ih =>
    by_cases h : c.EndsInClass
    · -- the header ends at the cut
      have hheads : Heads typeWords (some ' ') (cutChars d cs rest) :=
        heads_class (by decide) d.isGap Clause.isWord_where
      rw [behind_cut h, afterHeader_of_silent c.plain_head c.silent_head, c.lastOf_head,
        afterHeader_of_heads hheads, cuts, if_pos h, if_neg (by simp)]
    · have hbehind : Silent typeWords before c.behind (clauseChars (d :: cs) rest) :=
        c.silent_behind (wordEnds_clauseChars d cs rest) (.inl h)
      rw [afterHeader_of_silent c.plain_behind hbehind, afterHeader_where, ih, cuts, if_neg h,
        Nat.zero_add]

include hrest

theorem occurrences_last (hp : Declarative p) (c : Clause) :
    occurrencesFrom p before (c.behind ++ clauseChars [] rest) = [] := by
  have hbehind : Silent typeWords before c.behind rest :=
    c.silent_behind hmark.1 (.inr hmark.2)
  rw [clauseChars_nil, occurrencesFrom_of_nowhere (hp.nowhere hbehind)]
  exact occurrencesFrom_eq_nil (hp.nowhere (hrest _))

/-- A pattern that matches at no cut finds nothing in the clauses. -/
theorem occurrences_clauses_none (hp : Declarative p)
    (hnot : ∀ d cs, ¬ Matches p (some ' ') (cutChars d cs rest)) (c : Clause) (cs : List Clause) :
    occurrencesFrom p before (c.behind ++ clauseChars cs rest) = [] := by
  induction cs generalizing c before with
  | nil => exact occurrences_last hmark hrest hp c
  | cons d cs ih =>
    by_cases h : c.EndsInClass
    · rw [occurrences_cut hp h, occurrences_pass_cut hp (hnot d cs), ih]
    · rw [occurrences_uncut hp h, ih]

/-- At every cut a class is declared whose name is the word that begins clauses. -/
theorem occurrences_declared_clauses (c : Clause) (cs : List Clause) :
    occurrencesFrom (declared "class".toList) before (c.behind ++ clauseChars cs rest) =
      List.replicate (cuts (c :: cs)) "where".toList := by
  have hp := declarative_class
  -- each clause is cut or not, and only a cut counts
  induction cs generalizing c before with
  | nil => exact occurrences_last hmark hrest hp c
  | cons d cs ih =>
    by_cases h : c.EndsInClass
    · rw [occurrences_cut hp h, cuts, if_pos h, Nat.add_comm, List.replicate_succ]
      refine (occurrences_declared_class d.isGap Clause.isWord_where (d.wordEnds_behind _)
        (by decide)).trans ?_
      rw [ih]
    · rw [occurrences_uncut hp h, ih, cuts, if_neg h, Nat.zero_add]

/-- Behind the last cut the block is found for that class. -/
theorem occurrences_block_clauses (hheader : ∀ b, afterHeader typeWords b rest = some s)
    (hs : ∀ b, Silent typeWords b s []) (c : Clause) (cs : List Clause) :
    occurrencesFrom (block "where".toList) before (c.behind ++ clauseChars cs rest) =
      if cuts (c :: cs) = 0 then [] else [(splitClose 0 s).1] := by
  have hp : Declarative (block "where".toList) := declarative_block Clause.isWord_where
  induction cs generalizing c before with
  | nil => exact occurrences_last hmark hrest hp c
  | cons d cs ih =>
    by_cases h : c.EndsInClass
    · have hends := d.wordEnds_behind (clauseChars cs rest)
      have hafter : afterHeader typeWords (lastOf none "where".toList)
          (d.behind ++ clauseChars cs rest) = if cuts (d :: cs) = 0 then some s else none :=
        afterHeader_clauses hmark hheader d cs
      rw [occurrences_cut hp h, cuts, if_pos h, if_neg (by simp)]
      by_cases hlast : cuts (d :: cs) = 0
      · rw [if_pos hlast] at hafter
        refine (occurrences_block_class d.isGap Clause.isWord_where hends (by decide)
          hafter).trans ?_
        rw [occurrencesFrom_eq_nil (hp.nowhere (hs (some '{')))]
      · -- the header is cut off again
        rw [if_neg hlast] at hafter
        have hnot : ¬ Matches (block "where".toList) (some ' ') (cutChars d cs rest) :=
          not_block_of_header (by decide) d.isGap Clause.isWord_where hends Clause.isWord_where
            hafter
        rw [occurrences_pass_cut hp hnot, ih, if_neg hlast]
    · rw [occurrences_uncut hp h, ih, cuts, if_neg h, Nat.zero_add]

end

/-! ## A class with constraints -/

/-- A class with type parameters, clauses of constraints, and a block of properties. -/
structure ConstrainedClass where
  type : TypeRef
  clauses : List Clause
  gap : List Char
  properties : List AutoProperty
  close : List Char
  trail : List Char
  spelled : type.Spelled
  parameterized : type.arguments ≠ []
  isBlank_gap : ∀ c ∈ gap, isBlank c = true
  isBlank_close : ∀ c ∈ close, isBlank c = true
  isBlank_trail : ∀ c ∈ trail, isBlank c = true

namespace ConstrainedClass

/-- The text between the braces. -/
def body (k : ConstrainedClass) : List Char := propertyChars k.properties k.close

/-- The text behind the opening brace. -/
def inner (k : ConstrainedClass) : List Char := k.body ++ '}' :: k.trail

/-- The block, with the blanks before it. -/
def blockChars (k : ConstrainedClass) : List Char := k.gap ++ '{' :: k.inner

/-- The text behind the name. -/
def behindName (k : ConstrainedClass) : List Char :=
  k.type.argumentChars ++ clauseChars k.clauses k.blockChars

def chars (k : ConstrainedClass) : List Char :=
  "class".toList ++ ([' '] ++ (k.type.name.toList ++ k.behindName))

/-- The text of the class as a whole text. -/
def text (k : ConstrainedClass) : String := String.ofList k.chars

/-- The name that the block is found for: that of the class, unless its header is cut. -/
def owner (k : ConstrainedClass) : String := if cuts k.clauses = 0 then k.type.name else "where"

variable (k : ConstrainedClass)

theorem toList_text : k.text.toList = k.chars := String.toList_ofList

/-! ### The block -/

theorem silent_inner : Silent typeWords before k.inner [] := by
  have hwords := isWord_typeWords
  have hproperties {r : List Char} : Silent typeWords before k.body r :=
    nowhere_properties k.isBlank_close (lexical_heads hwords).wordy fun q _ _ => q.silent_chars
  exact Nowhere.append hproperties
    ((silent_mark hwords (by decide)).mpr (silent_blanks hwords k.isBlank_trail))

theorem silent_block : Silent typeWords before k.blockChars [] :=
  Nowhere.append (silent_blanks isWord_typeWords k.isBlank_gap)
    ((silent_mark isWord_typeWords (by decide)).mpr k.silent_inner)

theorem markFollows_block : MarkFollows k.blockChars :=
  markFollows_append k.isBlank_gap (by decide) (by decide) _

theorem afterHeader_block : afterHeader typeWords before k.blockChars = some k.inner :=
  afterHeader_append isWord_typeWords (plain_of_blank k.isBlank_gap)
    (silent_blanks isWord_typeWords k.isBlank_gap)

/-- The block ends at its closing brace. -/
theorem splitClose_inner : (splitClose 0 k.inner).1 = k.body :=
  congrArg Prod.fst ((sealed_properties k.isBlank_close).splitClose k.trail)

/-! ### Behind the name -/

theorem argumentChars_eq :
    k.type.argumentChars = '<' :: (listed (k.type.arguments.map String.toList) ++ ['>']) :=
  if_neg k.parameterized

theorem plain_argumentChars : Plain k.type.argumentChars := by
  rw [argumentChars_eq]
  have hlist : Plain (listed (k.type.arguments.map String.toList)) :=
    plain_of_madeOf ((madeOf_arguments k.spelled).mono (by decide))
  exact (hlist.append (by decide)).cons (by decide)

theorem markFollows_behindName : MarkFollows k.behindName := by
  unfold behindName
  rw [argumentChars_eq]
  exact markFollows_cons (by decide) (by decide) _

/-- Behind the type parameters a scan goes on behind the word that begins the first clause. -/
theorem occurrences_first (hp : Declarative p) (c : Clause) (cs : List Clause) :
    occurrencesFrom p before (k.type.argumentChars ++ clauseChars (c :: cs) rest) =
      occurrencesFrom p (some 'e') (c.behind ++ clauseChars cs rest) := by
  rw [occurrencesFrom_of_nowhere (hp.nowhere (silent_argumentChars isWord_typeWords k.spelled)),
    occurrences_where hp]

/-- Without clauses it finds nothing behind them. -/
theorem occurrences_unconstrained (hp : Declarative p) :
    occurrencesFrom p before (k.type.argumentChars ++ clauseChars [] k.blockChars) = [] := by
  rw [occurrencesFrom_of_nowhere (hp.nowhere (silent_argumentChars isWord_typeWords k.spelled))]
  exact occurrencesFrom_eq_nil (hp.nowhere k.silent_block)

theorem occurrences_behind_none (hp : Declarative p)
    (hnot : ∀ d cs, ¬ Matches p (some ' ') (cutChars d cs k.blockChars)) :
    occurrencesFrom p before k.behindName = [] := by
  unfold behindName
  cases k.clauses with
  | nil => exact k.occurrences_unconstrained hp
  | cons c cs =>
    rw [k.occurrences_first hp,
      occurrences_clauses_none k.markFollows_block (fun _ => k.silent_block) hp hnot]

theorem occurrences_declared_behind :
    occurrencesFrom (declared "class".toList) before k.behindName =
      List.replicate (cuts k.clauses) "where".toList := by
  have hp := declarative_class
  unfold behindName
  cases k.clauses with
  | nil => exact k.occurrences_unconstrained hp
  | cons c cs =>
    rw [k.occurrences_first hp,
      occurrences_declared_clauses k.markFollows_block fun _ => k.silent_block]

theorem occurrences_block_behind :
    occurrencesFrom (block "where".toList) before k.behindName =
      if cuts k.clauses = 0 then [] else [k.body] := by
  have hp : Declarative (block "where".toList) := declarative_block Clause.isWord_where
  unfold behindName
  cases k.clauses with
  | nil => exact k.occurrences_unconstrained hp
  | cons c cs =>
    rw [k.occurrences_first hp, occurrences_block_clauses k.markFollows_block
      (fun _ => k.silent_block) (fun _ => k.afterHeader_block) (fun _ => k.silent_inner),
      k.splitClose_inner]

/-- The header of the class reaches its block if no clause is cut. -/
theorem afterHeader_behind :
    afterHeader typeWords before k.behindName =
      if cuts k.clauses = 0 then some k.inner else none := by
  have harguments {r : List Char} : Silent typeWords before k.type.argumentChars r :=
    silent_argumentChars isWord_typeWords k.spelled
  unfold behindName
  rw [afterHeader_of_silent k.plain_argumentChars harguments]
  cases k.clauses with
  | nil => exact k.afterHeader_block
  | cons c cs =>
    rw [afterHeader_where, afterHeader_clauses k.markFollows_block fun _ => k.afterHeader_block]

/-! ### What is declared -/

theorem occurrences_pass_name (hp : Declarative p)
    (hnot : ¬ Matches p none k.chars) :
    occurrencesFrom p none k.chars =
      occurrencesFrom p (lastOf none k.type.name.toList) k.behindName :=
  occurrences_pass_class isGap_space k.spelled.name k.markFollows_behindName.1 hp
    (.inr k.markFollows_behindName.2) hnot

/-- The name of the class is declared, and the word that begins clauses at every cut. -/
theorem declaredNames_class : declaredNames "class" k.text = [k.type.name, k.owner].eraseDups := by
  have hfound : occurrences (declared "class".toList) k.chars =
      k.type.name.toList :: List.replicate (cuts k.clauses) "where".toList := by
    refine (occurrences_declared_class isGap_space k.spelled.name k.markFollows_behindName.1
      rfl).trans ?_
    rw [k.occurrences_declared_behind]
  -- every clause that is cut declares `where` once more, but a name counts once
  have hnames : (k.type.name :: List.replicate (cuts k.clauses) "where").eraseDups =
      [k.type.name, k.owner].eraseDups := by
    unfold owner
    cases cuts k.clauses with
    | zero =>
      have htwice : ([k.type.name] ++ [k.type.name]).eraseDups = [k.type.name].eraseDups :=
        eraseDups_append_of_subset (by simp)
      exact htwice.symm
    | succ n =>
      have hmore : ([k.type.name, "where"] ++ List.replicate n "where").eraseDups =
          [k.type.name, "where"].eraseDups :=
        eraseDups_append_of_subset fun y hy => by simp [List.eq_of_mem_replicate hy]
      exact hmore
  unfold declaredNames
  rw [k.toList_text, hfound, List.map_cons, List.map_replicate, String.ofList_toList,
    String.ofList_toList, hnames]

/-- Nothing else is declared if no clause is cut, or if the class has that name itself. -/
theorem declaredNames_eq_iff :
    declaredNames "class" k.text = [k.type.name] ↔ cuts k.clauses = 0 ∨ k.type.name = "where" := by
  have hmem (name : String) :
      name ∈ declaredNames "class" k.text ↔ name = k.type.name ∨ name = k.owner := by
    rw [k.declaredNames_class, List.mem_eraseDups, List.mem_pair]
  constructor
  · intro hread
    -- the owner is always declared, so it has to be the name of the type
    have howner := (hmem k.owner).mpr (.inr rfl)
    rw [hread, List.mem_singleton, owner] at howner
    split at howner
    · exact .inl ‹_›
    · exact .inr howner.symm
  · intro h
    have howner : k.owner = k.type.name := by
      rcases h with hcuts | hname
      · exact if_pos hcuts
      · rw [owner, hname, ite_self]
    rw [k.declaredNames_class, howner]
    simp [List.eraseDups_cons]

theorem declaredNames_interface : declaredNames "interface" k.text = [] := by
  have hp := declarative_interface
  have hnone : occurrences (declared "interface".toList) k.chars = [] := by
    refine (k.occurrences_pass_name hp (not_interface_at_class _)).trans ?_
    exact k.occurrences_behind_none hp fun _ _ => not_interface_at_class _
  unfold declaredNames
  rw [k.toList_text, hnone]
  rfl

theorem afterTypeParameters_arguments (s : List Char) :
    afterTypeParameters (k.type.argumentChars ++ s) = s := by
  have hlist : ∀ c ∈ listed (k.type.arguments.map String.toList),
      decide (c ∉ ['<', '>', '{', '}', ';']) = true := fun c hc =>
    decide_eq_true ((madeOf_arguments k.spelled).avoids _ (by decide) (by decide) c hc)
  have hdrop := dropWhile_append_of_ends (s := '>' :: s) hlist (by rfl)
  rw [argumentChars_eq, List.cons_append, List.append_assoc, List.singleton_append]
  unfold afterTypeParameters
  simp only [hdrop]

theorem head?_word {w : List Char} (hw : IsWord w) {c : Char} (hc : isWord c = false)
    (s : List Char) : (w ++ s).head? ≠ some c := by
  intro heq
  have hhead := hw.head s
  rw [heq] at hhead
  exact absurd hhead (by simp [hc])

/-- Behind the type parameters stands the first clause or the block, and no colon. -/
theorem no_colon_behindName :
    (trimStart (afterTypeParameters (trimStart k.behindName))).head? ≠ some ':' := by
  have hstart : trimStart k.behindName = k.behindName := by
    refine trimStart_of_ends ?_
    unfold behindName
    rw [argumentChars_eq]
    rfl
  rw [hstart, behindName, afterTypeParameters_arguments]
  cases k.clauses with
  | nil =>
    -- behind the name comes the brace, or the word `where`, but no colon
    have hbrace : BlanksEnd ('{' :: k.inner) := by rfl
    rw [clauseChars_nil, blockChars, trimStart_append k.isBlank_gap, trimStart_of_ends hbrace]
    simp
  | cons c cs =>
    rw [clauseChars_cons, List.append_assoc, trimStart_gap_word c.isGap Clause.isWord_where]
    exact head?_word Clause.isWord_where (by decide) _

/-- Behind a cut stands the name of a type parameter. -/
theorem not_ancestry_cut (d : Clause) (cs : List Clause) :
    ¬ Matches ancestry (some ' ') (cutChars d cs k.blockChars) := by
  have hparameter : ∀ c, isWord c = false →
      (trimStart (d.behind ++ clauseChars cs k.blockChars)).head? ≠ some c := by
    intro c hc
    rw [Clause.behind, Clause.head, List.append_assoc, List.append_assoc, List.append_assoc,
      trimStart_gap_word isGap_space d.isWord_parameter]
    exact head?_word d.isWord_parameter hc _
  exact not_ancestry_class (by decide) d.isGap Clause.isWord_where (d.wordEnds_behind _)
    (no_colon_behind (hparameter '<' (by decide)) (hparameter ':' (by decide)))

/-- Neither the class nor what is declared at a cut has a base list. -/
theorem ancestries_nil : ancestries k.text = [] := by
  have hp := declarative_ancestry
  have hname : ¬ Matches ancestry none k.chars :=
    not_ancestry_class rfl isGap_space k.spelled.name k.markFollows_behindName.1
      k.no_colon_behindName
  unfold ancestries
  rw [k.toList_text]
  exact (k.occurrences_pass_name hp hname).trans (k.occurrences_behind_none hp k.not_ancestry_cut)

/-- Where no clause is cut, the block is found for the class. -/
theorem bodies_uncut (hcuts : cuts k.clauses = 0) : bodies k.type.name k.chars = [k.body] := by
  have hp : Declarative (block k.type.name.toList) := declarative_block k.spelled.name
  have hafter : afterHeader typeWords (lastOf none k.type.name.toList) k.behindName =
      some k.inner := by
    rw [k.afterHeader_behind, if_pos hcuts]
  refine (occurrences_block_class isGap_space k.spelled.name k.markFollows_behindName.1 rfl
    hafter).trans ?_
  rw [occurrencesFrom_eq_nil (hp.nowhere k.silent_inner), k.splitClose_inner]

/-- Otherwise it is found for the class that is declared at the last cut, and for no other name. -/
theorem bodies_cut (hcuts : cuts k.clauses ≠ 0) {name : String} (hname : IsWord name.toList) :
    bodies name k.chars = if name = "where" then [k.body] else [] := by
  have hp : Declarative (block name.toList) := declarative_block hname
  have hafter : afterHeader typeWords (lastOf none k.type.name.toList) k.behindName = none := by
    rw [k.afterHeader_behind, if_neg hcuts]
  -- the header of the class does not reach the block
  have hpass := k.occurrences_pass_name hp (not_block_of_header rfl isGap_space k.spelled.name
    k.markFollows_behindName.1 hname hafter)
  by_cases hwhere : name = "where"
  · subst hwhere
    rw [if_pos rfl]
    refine hpass.trans ?_
    rw [k.occurrences_block_behind, if_neg hcuts]
  · have hne : "where".toList ≠ name.toList := fun h => hwhere (String.toList_inj.mp h).symm
    rw [if_neg hwhere]
    exact hpass.trans (k.occurrences_behind_none hp fun d cs => not_block_class (by decide) d.isGap
      Clause.isWord_where (d.wordEnds_behind _) hname hne)

/-- The block is found for its owner and for no other name. -/
theorem bodies_declared :
    ∀ name ∈ [k.type.name, k.owner],
      bodies name k.text.toList = if name = k.owner then [k.body] else [] := by
  intro name hname
  rw [k.toList_text]
  by_cases hcuts : cuts k.clauses = 0
  · have howner : k.owner = k.type.name := if_pos hcuts
    obtain rfl : name = k.type.name := by simpa [howner] using hname
    rw [if_pos howner.symm, k.bodies_uncut hcuts]
  · have howner : k.owner = "where" := if_neg hcuts
    have hword : IsWord name.toList := by
      rcases List.mem_pair.mp hname with rfl | rfl
      · exact k.spelled.name
      · exact howner ▸ Clause.isWord_where
    rw [howner, k.bodies_cut hcuts hword]

/-- The members of the block are found for its owner. -/
theorem membersIn_declared :
    ∀ name ∈ [k.type.name, k.owner], membersIn k.text name =
      if name = k.owner then { attributes := k.properties.map AutoProperty.line } else {} := by
  intro name hname
  unfold membersIn
  rw [k.bodies_declared name hname]
  split
  · rw [List.map_singleton, body, declaredMembers_properties k.isBlank_close, join_cons]
    exact members_append_empty _
  · rfl

end ConstrainedClass

/-- **Constraints that are keywords.** A class with constraints is declared under its name. If a
clause before the last one ends in the keyword of a class, then the word that begins the next clause
is declared as a class as well, and the block with its properties is found for that one and not for
the class. Otherwise, and if the class has that word for its name, it is read alone, with its
properties. -/
theorem constraint_declares_a_class (engine : Engine Float) (settings : ReadSettings)
    (supply : Supply) (hid : Function.Injective supply.idAt) (k : ConstrainedClass) :
    declaredNames "class" k.text = [k.type.name, k.owner].eraseDups ∧
      (declaredNames "class" k.text = [k.type.name] ↔
        cuts k.clauses = 0 ∨ k.type.name = "where") ∧
      engine.Gives settings (fun a => a.diagram.sketch =
          [k.type.name, k.owner].eraseDups.map fun name =>
            .box .classBox name (if name = k.owner then
              { attributes := k.properties.map AutoProperty.line } else {}))
        (read engine settings supply k.text) := by
  refine ⟨k.declaredNames_class, k.declaredNames_eq_iff, ?_⟩
  have hinterfaces : interfacesIn k.text = [] := by
    unfold interfacesIn
    rw [k.declaredNames_interface]
    rfl
  have hrelations : relationsIn k.text = [] := by
    unfold relationsIn relations
    rw [k.ancestries_nil]
    rfl
  -- no interface and no base is found: the sketch is the classes with their members
  refine (gives_sketch engine settings hid k.text).imp fun a _ ha => ?_
  rw [ha, sketchIn, hinterfaces, hrelations, List.map_nil, List.map_nil, List.append_nil,
    List.append_nil, k.declaredNames_class]
  refine List.map_congr_left fun name hname => ?_
  rw [k.membersIn_declared name (List.mem_eraseDups.mp hname)]

/-- A class with two type parameters and one property. The second parameter is constrained to be a
value. -/
def repository (others : List Constraint) (last : Constraint)
    (h : ∀ k ∈ last :: others, k.WellFormed) : ConstrainedClass where
  type := ⟨"Repo", ["T", "U"]⟩
  clauses := [⟨[' '], "T", others, last, isGap_space, by decide +kernel, h⟩,
    ⟨[' '], "U", [], .value, isGap_space, by decide +kernel, by simp [Constraint.WellFormed]⟩]
  gap := ['\n']
  properties := [⟨"\n    ".toList, "int", "Size", by decide +kernel, by decide +kernel,
    by decide +kernel, by decide +kernel⟩]
  close := ['\n']
  trail := ['\n']
  spelled := ⟨by decide +kernel, by decide +kernel⟩
  parameterized := by simp
  isBlank_gap := by decide
  isBlank_close := by decide
  isBlank_trail := by decide

/-- The first parameter is constrained to be a class that can be constructed. -/
def uncutRepository : ConstrainedClass :=
  repository [.reference] .construction (by simp [Constraint.WellFormed])

/-- It is only constrained to be a class. -/
def cutRepository : ConstrainedClass :=
  repository [] .reference (by simp [Constraint.WellFormed])

/-- A comma stands behind the keyword, so the clause is not cut. -/
theorem constraint_declares_a_class_uncut :
    Function.Injective Supply.tally.idAt ∧
      uncutRepository.text = "class Repo<T, U> where T : class, new() where U : struct\n" ++
        "\x7b\n    public int Size \x7b get; set; \x7d\n\x7d\n" ∧
      uncutRepository.owner = "Repo" ∧
      declaredNames "class" uncutRepository.text = ["Repo", "Repo"].eraseDups ∧
      (declaredNames "class" uncutRepository.text = ["Repo"] ↔
        cuts uncutRepository.clauses = 0 ∨ "Repo" = "where") ∧
      ∃ a, read layeredEngine {} .tally uncutRepository.text = .ok a ∧ a.diagram.sketch =
        ["Repo", "Repo"].eraseDups.map fun name => .box .classBox name
          (if name = "Repo" then { attributes := ["+ Size: int"] } else {}) := by
  obtain ⟨hnames, hiff, hgives⟩ :=
    constraint_declares_a_class layeredEngine {} .tally tally_injective uncutRepository
  exact ⟨tally_injective, by decide +kernel, by decide +kernel, hnames, hiff,
    hgives.exists_ok (by decide)⟩

/-- A class loses its block to one that is none. -/
theorem block_lost_to_a_constraint :
    cutRepository.text = "class Repo<T, U> where T : class where U : struct\n" ++
        "\x7b\n    public int Size \x7b get; set; \x7d\n\x7d\n" ∧
      declaredNames "class" cutRepository.text ≠ ["Repo"] ∧
      ∃ a, read layeredEngine {} .tally cutRepository.text = .ok a ∧ a.diagram.sketch ≠
        [.box .classBox "Repo" { attributes := ["+ Size: int"] }] := by
  have htext : cutRepository.text = "class Repo<T, U> where T : class where U : struct\n" ++
      "\x7b\n    public int Size \x7b get; set; \x7d\n\x7d\n" := by decide +kernel
  have hnames : declaredNames "class" ("class Repo<T, U> where T : class where U : struct\n" ++
      "\x7b\n    public int Size \x7b get; set; \x7d\n\x7d\n") = ["Repo", "where"] := by
    decide +kernel
  -- the properties of `Repo` go to a class named `where`
  have hsketch : sketchIn ("class Repo<T, U> where T : class where U : struct\n" ++
      "\x7b\n    public int Size \x7b get; set; \x7d\n\x7d\n") =
        [.box .classBox "Repo" {}, .box .classBox "where" { attributes := ["+ Size: int"] }] := by
    decide +kernel
  refine ⟨htext, ?_, ?_⟩
  · rw [htext, hnames]
    decide
  · obtain ⟨a, hread, ha⟩ :=
      (gives_sketch layeredEngine {} tally_injective cutRepository.text).exists_ok (by decide)
    refine ⟨a, hread, ?_⟩
    rw [ha, htext, hsketch]
    decide

end ClassAtlas.Code
