import ClassAtlas.Proofs.Markup.Writing

/-!
# Comments

A line that begins with two percent signs is meant for people, and the reader of statements leaves
it out. It does so statement by statement, however, and a semicolon ends a statement in a comment as
well; and declarations are looked for in the whole text, comments included. So a comment line adds
to a reading what is stated behind its first semicolon and what is declared in it, and nothing else,
as long as it does not stand within a declaration.
-/

namespace ClassAtlas.Markup

open Text

/-- A line begins behind the text. -/
def LineStart (s : String) : Prop := s = "" ∨ ∃ r : String, s = r ++ "\n"

/-- A comment: a line whose first characters are two percent signs, but for blanks. -/
structure CommentLine (line : String) : Prop where
  marks : isComment (trimStart line.toList) = true
  single : '\n' ∉ line.toList

instance (line : String) : Decidable (CommentLine line) :=
  decidable_of_iff (isComment (trimStart line.toList) = true ∧ '\n' ∉ line.toList)
    ⟨fun ⟨a, b⟩ => ⟨a, b⟩, fun ⟨a, b⟩ => ⟨a, b⟩⟩

/-- What stands in a line before its first semicolon. -/
def beforeSemicolon (line : String) : String := String.ofList (line.toList.takeWhile (· ≠ ';'))

/-- What stands in a line behind its first semicolon. -/
def behindSemicolon (line : String) : String :=
  String.ofList ((line.toList.dropWhile (· ≠ ';')).drop 1)

variable {s t line : String}

theorem semicolon_cases (line : String) :
    beforeSemicolon line = line ∧ behindSemicolon line = "" ∨
      line.toList = (beforeSemicolon line).toList ++ ';' :: (behindSemicolon line).toList := by
  have hsplit : line.toList = line.toList.takeWhile (· ≠ ';') ++ line.toList.dropWhile (· ≠ ';') :=
    List.takeWhile_append_dropWhile.symm
  unfold beforeSemicolon behindSemicolon
  cases hrest : line.toList.dropWhile (· ≠ ';') with
  | nil =>
    rw [hrest, List.append_nil] at hsplit
    exact .inl ⟨by rw [← hsplit, String.ofList_toList], by rw [List.drop_nil]⟩
  | cons c rest =>
    -- the rest starts with the first character that is not kept, a semicolon
    have hsep : c = ';' := by
      have hstop := List.head?_dropWhile_not (fun c => decide (c ≠ ';')) line.toList
      rw [hrest] at hstop
      simpa using hstop
    rw [hrest, hsep] at hsplit
    refine .inr ?_
    rw [String.toList_ofList, String.toList_ofList]
    exact hsplit

/-! ## Statements -/

/-- What stands before a separator and behind it is stated on its own. -/
theorem relationStatements_separated {text : String} {sep : Char} (hsep : sep = '\n' ∨ sep = ';')
    (h : text.toList = s.toList ++ sep :: t.toList) :
    relationStatements text = relationStatements s ++ relationStatements t := by
  simp only [relationStatements_eq]
  rw [h, List.splitOnP_append_cons _ _ (by simpa using hsep), List.map_append,
    List.filterMap_append]

theorem relationStatements_empty : relationStatements "" = [] := by decide

/-- The line break at the end of a line states nothing. -/
theorem relationStatements_line (s : String) :
    relationStatements (s ++ "\n") = relationStatements s := by
  have hlast : (s ++ "\n").toList = s.toList ++ '\n' :: "".toList := by simp
  rw [relationStatements_separated (.inl rfl) hlast, relationStatements_empty, List.append_nil]

theorem relationStatements_append (hs : LineStart s) (t : String) :
    relationStatements (s ++ t) = relationStatements s ++ relationStatements t := by
  rcases hs with rfl | ⟨r, rfl⟩
  · rw [relationStatements_empty, String.empty_append, List.nil_append]
  · have htext : (r ++ "\n" ++ t).toList = r.toList ++ '\n' :: t.toList := by simp
    rw [relationStatements_separated (.inl rfl) htext, relationStatements_line]

/-- A statement that begins with a percent sign is no relation. -/
theorem relationStatements_percent (hhead : (trimStart line.toList).head? = some '%')
    (hwhole : ∀ c ∈ line.toList, c ≠ '\n' ∧ c ≠ ';') : relationStatements line = [] := by
  have hstart : WordEnds (trim line.toList) := by
    unfold WordEnds
    rw [head?_trim, hhead]
    exact (by decide : isWord '%' = false)
  have hnone : RelationStatement.ofChars? (trim line.toList) = none := by
    unfold RelationStatement.ofChars?
    rw [word_eq_none hstart]
    rfl
  rw [relationStatements_eq, List.splitOnP_eq_singleton fun c hc => by simpa using hwhole c hc]
  simp [hnone]

theorem percent_beforeSemicolon (h : CommentLine line) :
    (trimStart (beforeSemicolon line).toList).head? = some '%' := by
  obtain ⟨r, hr⟩ : ∃ r, trimStart line.toList = '%' :: r := by
    have hmarks := h.marks
    unfold isComment at hmarks
    split at hmarks
    · exact ⟨_, ‹_›⟩
    · exact absurd hmarks (by simp)
  obtain ⟨g, hline, hblanks⟩ := trimStart_split line.toList
  -- no blank is a semicolon, so the percent sign stands before the first one
  have hplain : ∀ c ∈ g, decide (c ≠ ';') = true := by
    intro c hc
    have hblank := hblanks c hc
    refine decide_eq_true ?_
    rintro rfl
    exact absurd hblank (by decide)
  unfold beforeSemicolon
  rw [String.toList_ofList, hline, hr, List.takeWhile_append_of_pos hplain,
    List.takeWhile_cons_of_pos (by decide), trimStart_append hblanks,
    trimStart_of_ends (blanksEnd_cons.mpr (by decide))]
  rfl

theorem whole_beforeSemicolon (h : CommentLine line) :
    ∀ c ∈ (beforeSemicolon line).toList, c ≠ '\n' ∧ c ≠ ';' := by
  unfold beforeSemicolon
  rw [String.toList_ofList]
  intro c hc
  refine ⟨?_, of_decide_eq_true (List.all_eq_true.mp List.all_takeWhile c hc)⟩
  rintro rfl
  exact h.single ((List.takeWhile_prefix _).subset hc)

/-- A comment line states what stands behind its first semicolon. -/
theorem relationStatements_commentLine (h : CommentLine line) :
    relationStatements line = relationStatements (behindSemicolon line) := by
  have hcomment := relationStatements_percent (percent_beforeSemicolon h) (whole_beforeSemicolon h)
  rcases semicolon_cases line with ⟨hbefore, hbehind⟩ | hsplit
  · rw [hbefore] at hcomment
    rw [hcomment, hbehind, relationStatements_empty]
  · rw [relationStatements_separated (.inr rfl) hsplit, hcomment, List.nil_append]

/-- A comment line adds to the statements of a text what stands behind its first semicolon. -/
theorem relationStatements_with_comment (hs : LineStart s) (hline : CommentLine line) (t : String) :
    relationStatements (s ++ (line ++ "\n" ++ t)) = relationStatements s ++
      (relationStatements (behindSemicolon line) ++ relationStatements t) := by
  rw [relationStatements_append hs, relationStatements_append (.inr ⟨line, rfl⟩),
    relationStatements_line, relationStatements_commentLine hline]

/-! ## Declarations -/

theorem wordDone_lineStart (hs : LineStart s) : WordDone s.toList := by
  rcases hs with rfl | ⟨r, rfl⟩
  · decide
  · rw [String.toList_append]
    exact wordDone_append_mark r.toList (by decide)

theorem declaredNames_append_line (hs : LineStart s) (hfinished : Finished "class" s) (t : String) :
    declaredNames "class" (s ++ t) =
      (declaredNames "class" s ++ declaredNames "class" t).eraseDups :=
  declaredNames_append (by decide +kernel) (wordDone_lineStart hs) hfinished t

/-- A line between two texts declares what it declares on its own, where no declaration runs across
its ends. -/
theorem declaredNames_with_line (hs : LineStart s) (hfs : Finished "class" s)
    (hfl : Finished "class" (line ++ "\n")) (t : String) :
    declaredNames "class" (s ++ (line ++ "\n" ++ t)) =
      (declaredNames "class" s ++
        (declaredNames "class" (line ++ "\n") ++ declaredNames "class" t)).eraseDups := by
  rw [declaredNames_append_line hs hfs, declaredNames_append_line (.inr ⟨line, rfl⟩) hfl,
    ← eraseDups_append_eraseDups (declaredNames "class" s) (_ ++ _),
    eraseDups_of_nodup (nodup_declaredNames "class" s)]

/-! ## Readings -/

/-- **What a comment line adds to a text.** A comment line anywhere between two lines of a text
states what stands behind its first semicolon, and nothing of the rest of the text is stated
differently. If no declaration runs into the comment or out of it, it declares what it would declare
on its own. So a reading takes no notice of a comment that states nothing behind its first semicolon
and declares nothing that has not been declared before. -/
theorem readings_with_comment_line (hs : LineStart s) (hline : CommentLine line) (t : String) :
    (relationStatements (s ++ t) = relationStatements s ++ relationStatements t ∧
      relationStatements (s ++ (line ++ "\n" ++ t)) = relationStatements s ++
        (relationStatements (behindSemicolon line) ++ relationStatements t)) ∧
    (Finished "class" s → Finished "class" (line ++ "\n") →
      declaredNames "class" (s ++ t) =
          (declaredNames "class" s ++ declaredNames "class" t).eraseDups ∧
        declaredNames "class" (s ++ (line ++ "\n" ++ t)) =
          (declaredNames "class" s ++
            (declaredNames "class" (line ++ "\n") ++ declaredNames "class" t)).eraseDups) ∧
    (Finished "class" s → Finished "class" (line ++ "\n") →
      relationStatements (behindSemicolon line) = [] →
      (∀ name ∈ declaredNames "class" (line ++ "\n"), name ∈ declaredNames "class" s) →
      ∀ engine settings supply, read engine settings supply (s ++ (line ++ "\n" ++ t)) =
        read engine settings supply (s ++ t)) := by
  have hstated := relationStatements_with_comment hs hline t
  refine ⟨⟨relationStatements_append hs t, hstated⟩, ?_, ?_⟩
  · intro hfs hfl
    exact ⟨declaredNames_append_line hs hfs t, declaredNames_with_line hs hfs hfl t⟩
  · intro hfs hfl hbehind hknown engine settings supply
    have hnames : declaredNames "class" (s ++ (line ++ "\n" ++ t)) =
        declaredNames "class" (s ++ t) := by
      rw [declaredNames_with_line hs hfs hfl, eraseDups_append_middle hknown,
        declaredNames_append_line hs hfs]
    unfold read assemble
    rw [hnames, hstated, hbehind, List.nil_append, relationStatements_append hs]

/-- The second line of a text is a comment with the keyword in it. -/
theorem readings_with_comment_line_pets :
    LineStart "class Dog\n" ∧ CommentLine " %% a class Dog has a name; see below" ∧
      read layeredEngine {} .tally
          ("class Dog\n" ++ (" %% a class Dog has a name; see below" ++ "\n" ++
            "class Cat\nDog --> Cat\n")) =
        read layeredEngine {} .tally ("class Dog\n" ++ "class Cat\nDog --> Cat\n") := by
  have hstart : LineStart "class Dog\n" := .inr ⟨"class Dog", by decide⟩
  have hline : CommentLine " %% a class Dog has a name; see below" := by decide +kernel
  exact ⟨hstart, hline, (readings_with_comment_line hstart hline _).2.2 (by decide +kernel)
    (by decide +kernel) (by decide +kernel) (by decide +kernel) _ _ _⟩

/-- A comment may declare a class, state a relation behind a semicolon, and part the keyword of a
declaration from its name. -/
theorem comments_are_read :
    (CommentLine "%% class Ghost" ∧
      declaredNames "class" ("" ++ ("%% class Ghost" ++ "\n" ++ "class Dog\n")) ≠
        declaredNames "class" ("" ++ "class Dog\n")) ∧
    (CommentLine "%% later; Dog --> Cat" ∧
      relationStatements ("class Dog\nclass Cat\n" ++ ("%% later; Dog --> Cat" ++ "\n" ++ "")) ≠
        relationStatements ("class Dog\nclass Cat\n" ++ "")) ∧
    CommentLine "%% note" ∧
      declaredNames "class" ("class\n" ++ ("%% note" ++ "\n" ++ "Dog\n")) ≠
        declaredNames "class" ("class\n" ++ "Dog\n") := by
  refine ⟨⟨?_, ?_⟩, ⟨?_, ?_⟩, ?_, ?_⟩ <;> decide +kernel

end ClassAtlas.Markup
