import ClassAtlas.Catalogue
import ClassAtlas.Proofs.Code.Declarable
import ClassAtlas.Proofs.Code.MemberPlaces

/-!
# What written texts are taken for

The dialect of a written text need not be told to read it again. The markup begins with its header,
whatever labels and members stand behind it; class declarations begin with a declaration, which is
enough to tell them from everything else. Only where there is nothing to declare the text is empty,
and is taken for the markup; then both readers find nothing in it.
-/

namespace ClassAtlas

open Text

variable {K : Type}

/-! ## The header -/

namespace Dialect

/-- The first line is the header alone, even where only blanks follow and are trimmed away. -/
theorem hasHeader_header (s : List Char) :
    hasHeader ("classDiagram".toList ++ '\n' :: s) = true := by
  have hw : IsWord "classDiagram".toList := by decide
  have htrim : trim ("classDiagram".toList ++ '\n' :: s) =
      "classDiagram".toList ++ trimEnd ('\n' :: s) := by
    unfold trim
    rw [trimStart_of_ends (hw.blanksEnd _), trimEnd_word_append hw]
  -- the first line ends with the header
  have hbreak : (trimEnd ('\n' :: s)).head?.any (fun c => decide (c ≠ '\n')) = false := by
    cases hs : trimEnd ('\n' :: s) with
    | nil => rfl
    | cons c t =>
      have hpre := trimEnd_prefix ('\n' :: s)
      rw [hs] at hpre
      obtain rfl := (List.cons_prefix_cons.mp hpre).1
      rfl
  have hline := takeWhile_append_of_ends (p := fun c => decide (c ≠ '\n'))
    (by decide : ∀ c ∈ "classDiagram".toList, decide (c ≠ '\n') = true) hbreak
  unfold hasHeader
  rw [htrim, hline]
  decide

theorem exists_trim_cons {c : Char} (hc : isBlank c = false) (s : List Char) :
    ∃ t, trim (c :: s) = c :: t := by
  have hends : BlanksEnd (c :: s) := hc
  have hhead := head?_trim (c :: s)
  rw [trimStart_of_ends hends] at hhead
  exact List.head?_eq_some_iff.mp hhead

/-- A text that begins with another letter than the header has no header. -/
theorem hasHeader_cons {c : Char} (hc : isBlank c = false) (hne : c ≠ 'c') (s : List Char) :
    hasHeader (c :: s) = false := by
  obtain ⟨t, ht⟩ := exists_trim_cons hc s
  have hbreak : c ≠ '\n' := by
    rintro rfl
    exact absurd hc (by decide)
  obtain ⟨r, hr⟩ := exists_trim_cons hc (t.takeWhile (· ≠ '\n'))
  unfold hasHeader
  rw [ht, List.takeWhile_cons_of_pos (by simpa using hbreak), hr]
  simp [literal, hne.symm]

/-! ## Declarations -/

/-- The access word and the word that declares a type are recognised, whatever is declared. -/
theorem accessHint_declaration {w : List Char} (hw : w ∈ Code.typeWords) (s : List Char) :
    accessHint ("public".toList ++ ' ' :: (w ++ ' ' :: s)) = true := by
  have hword : IsWord w := (by decide : ∀ v ∈ Code.typeWords, IsWord v) w hw
  have haccess : oneOf Code.accessWords ("public".toList ++ ' ' :: (w ++ ' ' :: s)) =
      some ("public".toList, ' ' :: (w ++ ' ' :: s)) := by
    unfold oneOf
    rw [show Code.accessWords = "public".toList :: Code.accessWords.tail from by decide,
      List.findSome?_cons, literal_append]
    rfl
  have hgap : gap (' ' :: (w ++ ' ' :: s)) = some (w ++ ' ' :: s) :=
    gap_space (hword.blanksEnd _)
  have hblank : ∀ c ∈ w, isBlank c = false := fun c hc => isBlank_of_isWord (hword.2 c hc)
  have hkept : ∀ c ∈ w, (isWord c || isBlank c) = true := by
    intro c hc
    rw [hword.2 c hc, Bool.true_or]
  unfold accessHint
  simp only [haccess, Option.bind_some, hgap]
  -- the words behind the access word are kept, and the first of them is a type word
  rw [List.takeWhile_append_of_pos hkept, List.takeWhile_cons_of_pos (by decide),
    List.splitOnP_append_cons_of_forall_mem hblank _ (by decide), List.any_cons,
    decide_eq_true hw, Bool.true_or]

/-- A text that begins with a declaration is taken for declarations. -/
theorem guess_declaration {text : String} {w s : List Char} (hw : w ∈ Code.typeWords)
    (h : text.toList = "public".toList ++ ' ' :: (w ++ ' ' :: s)) : guess text = .code := by
  have hheader : hasHeader text.toList = false := by
    rw [h]
    exact hasHeader_cons (by decide) (by decide) _
  -- the very first place of the text is enough
  have hhint : (codeHint none text.toList).isSome = true := by
    unfold codeHint
    rw [h, accessHint_declaration hw]
    rfl
  have hoccurs : occurs codeHint none text.toList = true := by
    rw [h] at hhint ⊢
    exact Bool.or_eq_true_iff.mpr (Or.inl hhint)
  unfold guess
  rw [hheader, hoccurs]
  rfl

end Dialect

/-- Every declaration begins with a header, and that with an access word and the word that declares
the type. -/
theorem Code.exists_header (bases : List String) (b : Box) :
    ∃ header ls, b.lines bases = header :: ls ∧
      ∃ w ∈ typeWords, ∃ s, header.toList = "public".toList ++ ' ' :: (w ++ ' ' :: s) := by
  unfold Box.lines
  cases b.isInterface with
  | true =>
    refine ⟨_, _, rfl, "interface".toList, by decide, b.label.toList, ?_⟩
    rw [String.toList_append]
    rfl
  | false =>
    obtain ⟨s, hs⟩ : ∃ s, classHeader b.label bases = "public class " ++ s :=
      ⟨_, String.append_assoc⟩
    refine ⟨_, _, rfl, "class".toList, by decide, s.toList, ?_⟩
    rw [hs, String.toList_append]
    rfl

/-- Where there is something to declare, the text begins with a declaration. -/
theorem Code.exists_declaration {d : Diagram K} (h : d.labelledNodes ≠ []) :
    ∃ w ∈ typeWords, ∃ s, (write d).toList = "public".toList ++ ' ' :: (w ++ ' ' :: s) := by
  have hboxes : boxes d ≠ [] := by
    rw [boxes_eq]
    exact fun hnil => h (List.map_eq_nil_iff.mp hnil)
  obtain ⟨b, bs, hbs⟩ := List.exists_cons_of_ne_nil hboxes
  obtain ⟨header, ls, hlines, w, hw, s, hheader⟩ :=
    exists_header (basesIn d.relations b.label) b
  unfold write
  rw [toList_unlines, blocks_eq, hbs, List.map_cons, List.cons_append, intercalate_cons,
    charsOf_append, hlines, charsOf_cons, hheader]
  exact ⟨w, hw, _, by simp only [List.append_assoc, List.cons_append]; rfl⟩

/-- Where there is nothing to declare, there is nothing to write. -/
theorem Code.write_of_nothing {d : Diagram K} (h : d.labelledNodes = []) : write d = "" := by
  have hboxes : boxes d = [] := by rw [boxes_eq, h, List.map_nil]
  unfold write
  rw [blocks_eq, hboxes, relations_of_no_boxes hboxes]
  rfl

/-! ## Reading back -/

namespace Dialect

theorem guess_markup (d : Diagram K) : guess (Markup.write d) = .markup := by
  have htext : (Markup.write d).toList = "classDiagram".toList ++ '\n' ::
      charsOf (d.labelledNodes.flatMap Markup.nodeLines ++
        d.arrows.filterMap (Markup.arrowLine? d)) := by
    unfold Markup.write Markup.lines
    rw [toList_unlines, List.append_assoc, List.singleton_append, charsOf_cons]
    rfl
  unfold guess
  rw [htext, hasHeader_header]
  rfl

theorem guess_code_iff (d : Diagram K) :
    guess (Code.write d) = .code ↔ d.labelledNodes ≠ [] := by
  by_cases h : d.labelledNodes = []
  · rw [Code.write_of_nothing h]
    exact iff_of_false (by decide) (not_not_intro h)
  · obtain ⟨w, hw, s, hs⟩ := Code.exists_declaration h
    exact iff_of_true (guess_declaration hw hs) h

/-- In an empty text both readers find nothing. -/
theorem read_empty (engine : Engine Float) (settings : ReadSettings) (supply : Supply) :
    Markup.read engine settings supply "" = Code.read engine settings supply "" := by
  have hassemble : Markup.assemble settings supply "" = Code.assemble settings supply "" := rfl
  unfold Markup.read Code.read
  rw [hassemble]

/-- The dialect that a written text is taken for reads it as its own does. -/
theorem read_guess (dialect : Dialect) (d : Diagram K) (engine : Engine Float)
    (settings : ReadSettings) (supply : Supply) :
    (guess (dialect.write d)).read engine settings supply (dialect.write d) =
      dialect.read engine settings supply (dialect.write d) := by
  cases dialect with
  | markup =>
    show (guess (Markup.write d)).read engine settings supply (Markup.write d) = _
    rw [guess_markup]
    rfl
  | code =>
    show (guess (Code.write d)).read engine settings supply (Code.write d) = _
    by_cases h : d.labelledNodes = []
    · -- nothing written looks like no code, but both readers find nothing in it
      rw [show Dialect.code.write d = "" from Code.write_of_nothing h, Code.write_of_nothing h]
      exact read_empty engine settings supply
    · rw [(guess_code_iff d).mpr h]
      rfl

theorem find_name (dialect : Dialect) :
    Catalogue.standard.find (some dialect.name) = .ok dialect := by
  have hlookup : Catalogue.standard.lookup? (Catalogue.key dialect.name) = some dialect := by
    cases dialect <;> decide +kernel
  unfold Catalogue.find
  rw [Option.getD_some, hlookup]

/-- **The dialect of a written text need not be told.** Whatever diagram is written, in either
dialect, reading the text without a name for the dialect gives the same diagram, ids and rest of the
supply as reading it under the name under which it was written. Markup is always taken for markup;
declarations are taken for declarations if there are any. -/
theorem written_text_needs_no_name (d : Diagram K) (engine : Engine Float)
    (settings : ReadSettings) (supply : Supply) :
    guess (Markup.write d) = .markup ∧
      (guess (Code.write d) = .code ↔ d.labelledNodes ≠ []) ∧
      ∀ dialect : Dialect, ∃ text,
        Catalogue.standard.write dialect.name d = .ok text ∧
        Catalogue.standard.read engine (some dialect.name) settings supply text =
          dialect.read engine settings supply text ∧
        Catalogue.standard.read engine none settings supply text =
          Catalogue.standard.read engine (some dialect.name) settings supply text := by
  refine ⟨guess_markup d, guess_code_iff d, ?_⟩
  intro dialect
  -- a dialect that is named is looked up; a guess has already given the same one
  have hnamed (text : String) :
      Catalogue.standard.read engine (some dialect.name) settings supply text =
        dialect.read engine settings supply text := by
    have hname : dialect.name ≠ "" := by cases dialect <;> decide
    unfold Catalogue.read Catalogue.choose
    simp only [Option.getD_some, if_neg hname, find_name]
    rfl
  refine ⟨dialect.write d, ?_, hnamed _, ?_⟩
  · unfold Catalogue.write
    rw [find_name]
    rfl
  · rw [hnamed, ← read_guess]
    unfold Catalogue.read Catalogue.choose
    simp only [Option.getD_none, if_true, find_name]
    rfl

end Dialect

end ClassAtlas
