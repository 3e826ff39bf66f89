import ClassAtlas.Diagram.Member
import ClassAtlas.Proofs.Text.Lines

/-!
# Member lines are read as they were written

A member line gives its parts back, however it is spaced. The reader takes each part as far as it
goes: blanks end at the mark, at the name, at a bracket or a colon, and the name ends at the first
character that belongs to no word. So the colon that it stops at is the one in front of the type,
and what follows it is the type whatever it looks like. A parameter list ends at its first closing
bracket, so it may hold colons, and a type may hold brackets.
-/

namespace ClassAtlas

open Text

variable {s t u name type : List Char}

/-! ## The parts of a line -/

/-- Blanks, perhaps none. -/
abbrev Blanks := { u : List Char // ∀ c ∈ u, isBlank c = true }

def noBlanks : Blanks := ⟨[], isBlank_nil⟩

def oneBlank : Blanks := ⟨[' '], isBlank_space⟩

/-- The inside of a parameter list: it has no closing bracket. -/
abbrev ParameterText := { u : List Char // ')' ∉ u }

/-- How a member line is spaced: the blanks before and behind its parts, and the parameter list
behind the name, if it has one. -/
structure LineSpacing where
  indent : Blanks
  behindMark : Blanks
  behindName : Blanks
  parameters : Option ParameterText
  beforeColon : Blanks
  behindColon : Blanks
  behind : Blanks

namespace LineSpacing

/-- The usual spacing: one blank behind the mark and one behind the colon. -/
def plain : LineSpacing :=
  ⟨noBlanks, oneBlank, noBlanks, none, noBlanks, oneBlank, noBlanks⟩

/-- The parameter list with its brackets. -/
def parameterChars (p : LineSpacing) : List Char :=
  p.parameters.elim [] fun inside => '(' :: (inside.1 ++ [')'])

/-- What stands between the name and the type. -/
def colonChars (p : LineSpacing) (s : List Char) : List Char :=
  p.behindName.1 ++ (p.parameterChars ++ (p.beforeColon.1 ++ ':' :: s))

/-- The line of a member with this spacing. -/
def line (p : LineSpacing) (mark name type : String) : String :=
  String.ofList (p.indent.1 ++ (mark.toList ++ (p.behindMark.1 ++ (name.toList ++
    p.colonChars (p.behindColon.1 ++ (type.toList ++ p.behind.1))))))

theorem toList_line (p : LineSpacing) (mark name type : String) :
    (p.line mark name type).toList = p.indent.1 ++ (mark.toList ++ (p.behindMark.1 ++
      (name.toList ++ p.colonChars (p.behindColon.1 ++ (type.toList ++ p.behind.1))))) :=
  String.toList_ofList

theorem line_plain (mark name type : String) :
    plain.line mark name type = memberLine mark name type := by
  refine String.toList_inj.mp ?_
  rw [toList_line]
  simp [plain, noBlanks, oneBlank, colonChars, parameterChars, memberLine]

/-- No word goes on behind the name. -/
theorem wordEnds_colonChars (p : LineSpacing) (s : List Char) : WordEnds (p.colonChars s) := by
  have hcolon : WordEnds (p.beforeColon.1 ++ ':' :: s) :=
    wordEnds_blanks_append p.beforeColon.2 (by decide : isWord ':' = false)
  refine wordEnds_blanks_append p.behindName.2 ?_
  unfold parameterChars
  cases p.parameters with
  | none => exact hcolon
  | some inside => exact (by decide : isWord '(' = false)

end LineSpacing

/-- A type that has its place in a member line: it is not empty, stands on one line, and has no
blank at its ends. -/
structure LineType (type : String) : Prop where
  ne_empty : type ≠ ""
  oneLine : '\n' ∉ type.toList
  trimmed : trim type.toList = type.toList

namespace LineType

theorem ne_nil {type : String} (h : LineType type) : type.toList ≠ [] :=
  fun hnil => h.ne_empty (String.toList_eq_nil_iff.mp hnil)

theorem blanksEnd {type : String} (h : LineType type) : BlanksEnd type.toList := by
  have hhead := head?_trim type.toList
  rw [h.trimmed] at hhead
  unfold BlanksEnd
  rw [hhead]
  exact blanksEnd_trimStart type.toList

theorem trimEnd_eq {type : String} (h : LineType type) : trimEnd type.toList = type.toList := by
  have htrim := h.trimmed
  unfold trim at htrim
  rwa [trimStart_of_ends h.blanksEnd] at htrim

end LineType

namespace MemberLine

/-! ## Reading a line part by part -/

theorem mark_cons {c : Char} (hc : c ∈ ['+', '-', '#', '~']) (s : List Char) :
    mark (c :: s) = ([c], s) := if_pos hc

/-- Of what stands behind the name, the colon in front of the type is reached. -/
theorem afterParameters_colonChars (p : LineSpacing) (s : List Char) :
    afterParameters (trimStart (p.colonChars s)) = some (':' :: s) := by
  have hcolon : trimStart (p.beforeColon.1 ++ ':' :: s) = ':' :: s := by
    rw [trimStart_append p.beforeColon.2]
    exact trimStart_of_ends (by decide : isBlank ':' = false)
  unfold LineSpacing.colonChars LineSpacing.parameterChars
  rw [trimStart_append p.behindName.2]
  cases p.parameters with
  | none =>
    rw [Option.elim_none, List.nil_append, hcolon]
    rfl
  | some inside =>
    -- the list goes up to its first closing bracket, which is its own
    have hinside : ∀ c ∈ inside.1, decide (c ≠ ')') = true := by
      intro c hc
      exact decide_eq_true fun heq => inside.2 (heq ▸ hc)
    have hclose : (inside.1 ++ ')' :: (p.beforeColon.1 ++ ':' :: s)).dropWhile (· ≠ ')') =
        ')' :: (p.beforeColon.1 ++ ':' :: s) := dropWhile_append_of_ends hinside rfl
    rw [Option.elim_some, List.cons_append,
      trimStart_of_ends (blanksEnd_cons.mpr (by decide))]
    simp only [List.append_assoc, List.cons_append, List.nil_append, afterParameters, hclose,
      hcolon]

/-- A type is read without the blanks around it. -/
theorem typeText_spaced {type : String} (h : LineType type) (g e : Blanks) :
    typeText (g.1 ++ (type.toList ++ e.1)) = some type.toList := by
  have hblanks : trimStart (g.1 ++ (type.toList ++ e.1)) = type.toList ++ e.1 := by
    rw [trimStart_append g.2]
    exact trimStart_of_ends ((blanksEnd_append h.ne_nil e.1).mpr h.blanksEnd)
  have hend : trimEnd (type.toList ++ e.1) = type.toList := by
    rw [trimEnd_append_blanks _ e.2, h.trimEnd_eq]
  obtain ⟨c, r, hcons⟩ :=
    List.exists_cons_of_ne_nil (List.append_ne_nil_of_left_ne_nil h.ne_nil e.1)
  unfold typeText
  rw [hblanks, hcons]
  dsimp only
  rw [← hcons, hend, if_neg h.oneLine]

/-- A line with a mark and a word for a name is read if the word is an identifier and the type can
be read. -/
theorem parse?_line {mark name : String} (hmark : mark ∈ ["+", "-", "#", "~"])
    (hname : IsWord name.toList) (p : LineSpacing) (type : String) :
    parse? (p.line mark name type) =
      if isIdentifier name.toList then
        (typeText (p.behindColon.1 ++ (type.toList ++ p.behind.1))).map fun t =>
          ⟨mark, name, some (String.ofList t)⟩
      else none := by
  obtain ⟨c, hc, rfl⟩ : ∃ c ∈ ['+', '-', '#', '~'], mark = String.ofList [c] := by
    simp only [List.mem_cons, List.not_mem_nil, or_false] at hmark
    rcases hmark with rfl | rfl | rfl | rfl
    · exact ⟨'+', by simp, rfl⟩
    · exact ⟨'-', by simp, rfl⟩
    · exact ⟨'#', by simp, rfl⟩
    · exact ⟨'~', by simp, rfl⟩
  have hblank : isBlank c = false :=
    (by decide : ∀ c ∈ ['+', '-', '#', '~'], isBlank c = false) c hc
  -- what follows the colon is named, so that the steps before it do not look into it
  obtain ⟨typed, htyped⟩ : ∃ t, t = p.behindColon.1 ++ (type.toList ++ p.behind.1) := ⟨_, rfl⟩
  have hindent : trimStart (p.indent.1 ++ c :: (p.behindMark.1 ++ (name.toList ++
      p.colonChars typed))) = c :: (p.behindMark.1 ++ (name.toList ++ p.colonChars typed)) := by
    rw [trimStart_append p.indent.2]
    exact trimStart_of_ends (blanksEnd_cons.mpr hblank)
  have hspace : trimStart (p.behindMark.1 ++ (name.toList ++ p.colonChars typed)) =
      name.toList ++ p.colonChars typed := by
    rw [trimStart_append p.behindMark.2]
    exact trimStart_of_ends (hname.blanksEnd _)
  unfold parse? ofChars?
  rw [p.toList_line, ← htyped, String.toList_ofList, List.singleton_append]
  simp only [hindent, mark_cons hc, hspace, word_append hname (p.wordEnds_colonChars typed),
    afterParameters_colonChars, Option.bind_eq_bind, Option.bind_some, String.ofList_toList]
  cases hid : isIdentifier name.toList with
  | false => rfl
  | true =>
    cases typeText typed with
    | none => rfl
    | some t => rfl

end MemberLine

/-- **Member lines are read as they were written.** For a mark, an identifier and a type that stands
on one line without blanks at its ends, the line of a member gives back the three of them. So does
every line with other blanks before, between and behind them, and with a parameter list behind the
name. -/
theorem member_lines_read_back {mark name type : String} (hmark : mark ∈ ["+", "-", "#", "~"])
    (hname : isIdentifier name.toList = true) (htype : LineType type) :
    MemberLine.parse? (memberLine mark name type) = some ⟨mark, name, some type⟩ ∧
      ∀ p : LineSpacing, MemberLine.parse? (p.line mark name type) =
        some ⟨mark, name, some type⟩ := by
  have hline (p : LineSpacing) : MemberLine.parse? (p.line mark name type) =
      some ⟨mark, name, some type⟩ := by
    rw [MemberLine.parse?_line hmark (isWord_of_isIdentifier hname), if_pos hname,
      MemberLine.typeText_spaced htype, Option.map_some, String.ofList_toList]
  refine ⟨?_, hline⟩
  rw [← LineSpacing.line_plain]
  exact hline .plain

/-- A line with a tabulator, a parameter list and wide blanks. -/
def walkSpacing : LineSpacing where
  indent := ⟨['\t'], List.forall_mem_singleton.mpr (by decide)⟩
  behindMark := oneBlank
  behindName := noBlanks
  parameters := some ⟨"to: Park".toList, by decide +kernel⟩
  beforeColon := oneBlank
  behindColon := ⟨[' ', ' '], List.forall_mem_cons.mpr ⟨by decide, isBlank_space⟩⟩
  behind := oneBlank

/-- A type that looks like a parameter list and another type. -/
theorem member_lines_read_back_walk :
    isIdentifier "walk".toList = true ∧ LineType "(at: Park): Leash<Dog>" ∧
      MemberLine.parse? "+ walk: (at: Park): Leash<Dog>" =
        some ⟨"+", "walk", some "(at: Park): Leash<Dog>"⟩ ∧
      MemberLine.parse? "\t+ walk(to: Park) :  (at: Park): Leash<Dog> " =
        some ⟨"+", "walk", some "(at: Park): Leash<Dog>"⟩ := by
  have hname : isIdentifier "walk".toList = true := by decide +kernel
  have htype : LineType "(at: Park): Leash<Dog>" :=
    ⟨by decide, by decide +kernel, by decide +kernel⟩
  have hmark : "+" ∈ ["+", "-", "#", "~"] := by simp
  have hplain : memberLine "+" "walk" "(at: Park): Leash<Dog>" =
      "+ walk: (at: Park): Leash<Dog>" := by decide +kernel
  have hspaced : walkSpacing.line "+" "walk" "(at: Park): Leash<Dog>" =
      "\t+ walk(to: Park) :  (at: Park): Leash<Dog> " := by decide +kernel
  obtain ⟨hwritten, hread⟩ := member_lines_read_back hmark hname htype
  refine ⟨hname, htype, ?_, ?_⟩
  · rwa [hplain] at hwritten
  · have hwalk := hread walkSpacing
    rwa [hspaced] at hwalk

end ClassAtlas
