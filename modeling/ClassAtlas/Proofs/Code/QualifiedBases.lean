import ClassAtlas.Proofs.Code.BaseLists

/-!
# Relations of written base lists

A class with a base list in front of its block says what its bases say: what the list is read as,
the type arguments, qualifiers and constraints in it taken away. The list ends at the brace, or
where a semicolon or the end of a line cuts it off.
-/

namespace ClassAtlas.Code

open Text

variable {before : Option Char} {w : List Char}

theorem ancestry_congr {before' : Option Char} (h : before.any isWord = before'.any isWord) :
    ancestry before = ancestry before' := by
  funext s
  unfold ancestry isBoundary
  rw [h]

theorem baseText_bases (b : WrittenBase) (bs : List WrittenBase) {s : List Char}
    (h : ∀ c ∈ basesChars b bs ++ s, staysInList c = true) (rest : List Char) :
    ∃ b' : WrittenBase, b'.name = b.name ∧
      baseText (' ' :: (basesChars b bs ++ s ++ '{' :: rest)) =
        some (basesChars b' bs ++ s, '{' :: rest) := by
  obtain ⟨b', hname, htrim⟩ := trimStart_bases b bs s
  have hne : trimStart (basesChars b bs ++ s) ≠ [] := by
    rw [htrim]
    exact List.append_ne_nil_of_left_ne_nil (basesChars_ne_nil b' bs) s
  have hstays : ∀ c ∈ basesChars b' bs ++ s, staysInList c = true := by
    rw [← htrim]
    exact fun c hc => h c ((List.dropWhile_suffix _).subset hc)
  refine ⟨b', hname, baseText_of_run ?_⟩
  rw [trimStart_cons (by decide), trimStart_append_of_ne_nil hne, htrim]
  exact run_append (htrim ▸ hne) hstays (by decide : staysInList '{' = false)

/-- A class with a written list is read up to its brace. -/
theorem occurrences_bases (b : WrittenBase) (bs : List WrittenBase)
    {constraint : Option (List Char)}
    (h : ∀ c ∈ basesChars b bs ++ constraintChars constraint, staysInList c = true)
    (hw : IsWord w) (rest : List Char) :
    occurrences ancestry (TypeSort.classType.word ++ ' ' :: (w ++ ' ' :: ':' :: ' ' ::
        (basesChars b bs ++ constraintChars constraint ++ '{' :: rest))) =
      ⟨String.ofList w, (b :: bs).map (·.name)⟩ :: occurrences ancestry rest := by
  obtain ⟨b', hname, htext⟩ := baseText_bases b bs h rest
  have hstart : ancestry (some ' ') = ancestry none := ancestry_congr (by decide)
  have hfound := ancestry_eq_some hw htext
  rw [baseNames_bases, List.map_cons, hname, ← List.map_cons, hstart] at hfound
  -- what is read ends before the brace
  have hsplit : ∃ u, u ≠ [] ∧ TypeSort.classType.word ++ ' ' :: (w ++ ' ' :: ':' :: ' ' ::
      (basesChars b bs ++ constraintChars constraint ++ '{' :: rest)) = u ++ '{' :: rest :=
    ⟨TypeSort.classType.word ++ ' ' :: (w ++ ' ' :: ':' :: ' ' ::
      (basesChars b bs ++ constraintChars constraint)), by simp, by simp⟩
  obtain ⟨u, hne, hu⟩ := hsplit
  rw [hu] at hfound ⊢
  have hbrace : Nowhere (Matches ancestry) (lastOf none u) ['{'] rest :=
    nowhere_marks declarative_ancestry.lexical.wordy (by decide)
  refine (occurrencesFrom_of_found hfound hne).trans (congrArg _ ?_)
  refine (occurrencesFrom_of_nowhere hbrace).trans ?_
  have hmark : (some '{').any isWord = (none : Option Char).any isWord := by decide
  exact occurrencesFrom_congr (ancestry_congr hmark) rest

/-- The bases behind the first one: those that are interfaces are implemented, and the others say
nothing. -/
theorem filterMap_zipIdx_bases (interfaces : List String) (name : String) (bs : List String)
    (k : Nat) :
    ((bs.zipIdx (k + 1)).filterMap fun (base, i) =>
      if base ∈ interfaces ∨ isInterfaceName base then
        some (⟨name, base, .implementation⟩ : Relation)
      else if i = 0 then some ⟨name, base, .inheritance⟩ else none) =
      (bs.filter fun base => base ∈ interfaces ∨ isInterfaceName base).map
        (⟨name, ·, .implementation⟩) := by
  induction bs generalizing k with
  | nil => rfl
  | cons b bs ih =>
    rw [List.zipIdx_cons, List.filterMap_cons, ih, List.filter_cons]
    by_cases hb : b ∈ interfaces ∨ isInterfaceName b
    · simp [hb]
    · simp [hb]

/-- What the bases of a class say of it. -/
theorem relations_cons (interfaces : List String) (name b : String) (bs : List String) :
    Ancestry.relations interfaces ⟨name, b :: bs⟩ =
      ⟨name, b, if b ∈ interfaces ∨ isInterfaceName b then .implementation else .inheritance⟩ ::
        (bs.filter fun base => base ∈ interfaces ∨ isInterfaceName base).map
          (⟨name, ·, .implementation⟩) := by
  unfold Ancestry.relations
  rw [List.zipIdx_cons, List.filterMap_cons, ← filterMap_zipIdx_bases interfaces name bs 0]
  by_cases hb : b ∈ interfaces ∨ isInterfaceName b
  · simp [hb]
  · simp [hb]

/-- **Written base lists.** A list of dotted paths, each perhaps with balanced type arguments, and
perhaps with constraints behind them, is read as the last names of the paths, in order. Where no
brace, semicolon or end of a line cuts the list off, the class that has it in front of its block
implements every base that is declared as an interface or has the name of one, and extends the first
base if that is neither; the other bases say nothing, and the rest of the text says what it says on
its own. -/
theorem written_bases_read (b : WrittenBase) (bs : List WrittenBase)
    (constraint : Option (List Char)) :
    baseNames (basesChars b bs ++ constraintChars constraint) = (b :: bs).map (·.name) ∧
    ((∀ c ∈ basesChars b bs ++ constraintChars constraint, c ∉ ['{', '}', ';', '\n']) →
      ∀ (name : String), IsWord name.toList → ∀ (interfaces : List String) (rest : String),
        relations interfaces ("class " ++ name ++ " : " ++
            String.ofList (basesChars b bs ++ constraintChars constraint) ++ "\x7b" ++ rest) =
          (⟨name, b.name, if b.name ∈ interfaces ∨ isInterfaceName b.name then .implementation
              else .inheritance⟩ ::
            ((bs.map (·.name)).filter fun base =>
              base ∈ interfaces ∨ isInterfaceName base).map (⟨name, ·, .implementation⟩)) ++
          relations interfaces rest) := by
  refine ⟨baseNames_bases b bs constraint, ?_⟩
  intro hstays name hname interfaces rest
  have htext : ("class " ++ name ++ " : " ++
      String.ofList (basesChars b bs ++ constraintChars constraint) ++ "\x7b" ++ rest).toList =
        TypeSort.classType.word ++ ' ' :: (name.toList ++ ' ' :: ':' :: ' ' ::
          (basesChars b bs ++ constraintChars constraint ++ '{' :: rest.toList)) := by
    have hclass : "class ".toList = TypeSort.classType.word ++ [' '] := by decide +kernel
    simp [hclass]
  unfold relations ancestries
  rw [htext, occurrences_bases b bs (fun c hc => decide_eq_true (hstays c hc)) hname,
    List.flatMap_cons, List.map_cons, relations_cons, String.ofList_toList]

/-- A base with a qualifier and nested type arguments. -/
theorem written_table : ∃ b : WrittenBase, b.name = "Table" ∧
    b.chars = "Data.Table<int, Map<string, List<int>>>".toList :=
  ⟨⟨[], ["Data"], "Table", some "int, Map<string, List<int>>".toList, [], by decide, by decide,
    by decide +kernel, by decide, by decide +kernel, by decide +kernel⟩, rfl, by decide +kernel⟩

/-- A base with the name of an interface. -/
theorem written_disposable : ∃ b : WrittenBase, b.name = "IDisposable" ∧
    b.chars = " System.IDisposable".toList :=
  ⟨⟨[' '], ["System"], "IDisposable", none, [], by decide, by decide, by decide +kernel, by decide,
    by decide, by decide⟩, rfl, by decide +kernel⟩

theorem written_bases_read_kennels :
    IsWord "Kennels".toList ∧
      relations [] ("class Kennels : Data.Table<int, Map<string, List<int>>>, " ++
          "System.IDisposable where K : new()\x7b") =
        [⟨"Kennels", "Table", .inheritance⟩, ⟨"Kennels", "IDisposable", .implementation⟩] := by
  have hword : IsWord "Kennels".toList := by decide +kernel
  obtain ⟨b, hb, hbchars⟩ := written_table
  obtain ⟨c, hc, hcchars⟩ := written_disposable
  have hlist : basesChars b [c] ++ constraintChars (some "K : new()".toList) =
      ("Data.Table<int, Map<string, List<int>>>, " ++
        "System.IDisposable where K : new()").toList := by
    rw [basesChars, hbchars, List.flatMap_cons, hcchars]
    decide +kernel
  have hread := (written_bases_read b [c] (some "K : new()".toList)).2
    (by rw [hlist]; decide +kernel) "Kennels" hword [] ""
  rw [hlist, hb, List.map_cons, hc] at hread
  exact ⟨hword, hread⟩

end ClassAtlas.Code
