import ClassAtlas.Proofs.Markup.Comments

/-!
# The grammar of relation statements

A relation statement is a phrase: a name, a gap, a symbol, a gap, a name, and perhaps a remark
behind a colon. The reader takes each part as far as it goes and never goes back. It misses nothing
by this, because no part can go on with what has to follow it: a name ends at a blank or a colon,
blanks end at a symbol or a name, and a symbol, circles included, ends at a blank. For the same
reason a statement is a phrase in one way only. A remark may hold anything, colons and symbols
included: it begins at the first colon behind the second name.
-/

namespace ClassAtlas.Markup

open Text

/-! ## Symbols -/

/-- The circle that may be drawn at an end of a symbol. -/
def IsCircle (s : List Char) : Prop := s = [] ∨ s = ['o']

/-- Strokes, at least one, with or without a circle at either end. -/
def IsSymbol (s : List Char) : Prop :=
  ∃ first strokes last, s = first ++ (strokes ++ last) ∧ IsCircle first ∧ IsCircle last ∧
    strokes ≠ [] ∧ ∀ c ∈ strokes, isStroke c = true

variable {s r w : List Char}

theorem isBlank_of_isStroke {c : Char} (h : isStroke c = true) : isBlank c = false := by
  have key : ∀ d ∈ ['-', '.', '<', '>', '|', '*'], isBlank d = false := by decide
  exact key c (of_decide_eq_true h)

/-- The characters that symbols are drawn with: none is a blank or a separator. -/
theorem IsSymbol.drawn (h : IsSymbol s) :
    ∀ c ∈ s, isBlank c = false ∧ c ≠ '\n' ∧ c ≠ ';' := by
  have key : ∀ d ∈ ['o', '-', '.', '<', '>', '|', '*'],
      isBlank d = false ∧ d ≠ '\n' ∧ d ≠ ';' := by decide
  have hcircle {first : List Char} (hfirst : IsCircle first) : ∀ c ∈ first, c = 'o' := by
    rcases hfirst with rfl | rfl <;> decide
  obtain ⟨first, strokes, last, rfl, hfirst, hlast, _, hstrokes⟩ := h
  intro c hc
  -- all characters of a symbol are among those listed
  refine key c ?_
  rcases List.mem_append.mp hc with hc | hc
  · rw [hcircle hfirst c hc]
    exact List.mem_cons_self ..
  · rcases List.mem_append.mp hc with hc | hc
    · exact List.mem_cons_of_mem _ (of_decide_eq_true (hstrokes c hc))
    · rw [hcircle hlast c hc]
      exact List.mem_cons_self ..

theorem IsSymbol.ne_nil (h : IsSymbol s) : s ≠ [] := by
  obtain ⟨first, strokes, last, rfl, _, _, hne, _⟩ := h
  simp [hne]

theorem IsSymbol.blanksEnd (h : IsSymbol s) (r : List Char) : BlanksEnd (s ++ r) := by
  rw [blanksEnd_append h.ne_nil]
  cases s with
  | nil => rfl
  | cons c s => exact (h.drawn c (by simp)).1

theorem circle_append {first : List Char} (h : IsCircle first) (hr : r.head? ≠ some 'o') :
    circle (first ++ r) = (first, r) := by
  rcases h with rfl | rfl
  · cases r with
    | nil => rfl
    | cons c r =>
      have hc : c ≠ 'o' := fun heq => hr (by rw [heq]; rfl)
      simp [circle, hc]
  · rfl

theorem circle_eq {first : List Char} (h : circle s = (first, r)) :
    s = first ++ r ∧ IsCircle first := by
  unfold circle at h
  split at h
  · obtain ⟨rfl, rfl⟩ := Prod.mk.inj h
    exact ⟨rfl, .inr rfl⟩
  · obtain ⟨rfl, rfl⟩ := Prod.mk.inj h
    exact ⟨rfl, .inl rfl⟩

/-- A symbol is read to its end where blanks follow it. -/
theorem symbol_append (h : IsSymbol s) (hr : ¬ BlanksEnd r) : symbol (s ++ r) = some (s, r) := by
  obtain ⟨first, strokes, last, rfl, hfirst, hlast, hne, hstrokes⟩ := h
  obtain ⟨c, r, rfl⟩ : ∃ c t, r = c :: t := by
    cases r with
    | nil => exact absurd blanksEnd_nil hr
    | cons c t => exact ⟨c, t, rfl⟩
  have hblank : isBlank c = true := by simpa using hr
  -- behind the symbol stands a blank, which no part of the symbol can take
  have hnotCircle : (c :: r).head? ≠ some 'o' := by
    rintro ⟨⟩
    exact absurd hblank (by decide)
  have hnoStroke : (last ++ c :: r).head?.any isStroke = false := by
    rcases hlast with rfl | rfl
    · cases hc : isStroke c with
      | false => exact hc
      | true => rw [isBlank_of_isStroke hc] at hblank; exact absurd hblank (by simp)
    · exact (by decide : isStroke 'o' = false)
  -- the first circle ends where the strokes start
  have hstart : (strokes ++ (last ++ c :: r)).head? ≠ some 'o' := by
    cases strokes with
    | nil => exact absurd rfl hne
    | cons d strokes =>
      rintro ⟨⟩
      exact absurd (hstrokes 'o' (by simp)) (by decide)
  unfold symbol
  rw [List.append_assoc, List.append_assoc, circle_append hfirst hstart]
  simp only [run_append hne hstrokes hnoStroke, Option.bind_eq_bind, Option.bind_some,
    circle_append hlast hnotCircle]
  rw [List.append_assoc]

theorem of_symbol (h : symbol s = some (w, r)) : s = w ++ r ∧ IsSymbol w := by
  unfold symbol at h
  obtain ⟨⟨strokes, s₁⟩, hrun, h⟩ := Option.bind_eq_some_iff.mp h
  obtain ⟨hs, hfirst⟩ := circle_eq (s := s) rfl
  obtain ⟨hs₁, hne, hstrokes, _⟩ := run_eq_some hrun
  obtain ⟨hs₂, hlast⟩ := circle_eq (s := s₁) rfl
  obtain ⟨rfl, rfl⟩ := Prod.mk.inj (Option.some.inj h)
  refine ⟨?_, _, strokes, _, List.append_assoc .., hfirst, hlast, hne, hstrokes⟩
  rw [List.append_assoc, List.append_assoc, ← hs₂, ← hs₁, ← hs]

/-! ## Phrases -/

/-- What stands behind the second name of a statement: a colon, perhaps blanks before it, and any
text. -/
@[ext]
structure Remark where
  blanks : List Char
  text : List Char
  isBlank : ∀ c ∈ blanks, Text.isBlank c = true

/-- The characters of a remark, none where it is absent. -/
def remarkChars : Option Remark → List Char
  | none => []
  | some m => m.blanks ++ ':' :: m.text

/-- The label that a remark gives: its text without the blanks around it, where anything is left. -/
def remarkLabel (remark : Option Remark) : Option String :=
  (remark.filter fun m => trim m.text ≠ []).map fun m => String.ofList (trim m.text)

/-- The parts of a relation statement as they stand in it. -/
@[ext]
structure Phrase where
  source : List Char
  before : List Char
  symbol : List Char
  after : List Char
  target : List Char
  remark : Option Remark
  isWord_source : IsWord source
  isGap_before : IsGap before
  isSymbol : IsSymbol symbol
  isGap_after : IsGap after
  isWord_target : IsWord target

namespace Phrase

/-- The text of a phrase. -/
def chars (p : Phrase) : List Char :=
  p.source ++ (p.before ++ (p.symbol ++ (p.after ++ (p.target ++ remarkChars p.remark))))

/-- The statement that a phrase makes. -/
def statement (p : Phrase) : RelationStatement where
  source := String.ofList p.source
  symbol := String.ofList p.symbol
  target := String.ofList p.target
  label := remarkLabel p.remark

/-- The relation that a phrase states. -/
def relation (p : Phrase) : Relation where
  source := String.ofList p.source
  target := String.ofList p.target
  kind := symbolKind (String.ofList p.symbol)

end Phrase

/-- Behind the second name comes nothing, a blank or a colon. -/
theorem wordEnds_remarkChars (remark : Option Remark) : WordEnds (remarkChars remark) := by
  cases remark with
  | none => rfl
  | some m => exact wordEnds_blanks_append m.isBlank (wordEnds_cons.mpr (by decide))

/-! ### One way to read -/

theorem any_not_isBlank (h : ¬ BlanksEnd s) : s.head?.any (fun c => !isBlank c) = false := by
  cases s with
  | nil => rfl
  | cons c s => simpa using h

theorem remarkChars_injective : Function.Injective remarkChars := by
  intro m m' h
  match m, m' with
  | none, none => rfl
  | none, some m' => exact absurd h (by simp [remarkChars])
  | some m, none => exact absurd h (by simp [remarkChars])
  | some m, some m' =>
    have hcolon (text : List Char) : BlanksEnd (':' :: text) := blanksEnd_cons.mpr (by decide)
    obtain ⟨hblanks, hrest⟩ := split_unique m.isBlank m'.isBlank (hcolon _) (hcolon _) h
    rw [Remark.ext hblanks (List.cons.inj hrest).2]

/-- A statement is a phrase in one way only. -/
theorem Phrase.chars_injective : Function.Injective Phrase.chars := by
  intro p q h
  unfold Phrase.chars at h
  -- part by part: what follows a part begins with a character of another kind
  obtain ⟨hsource, h⟩ := split_unique p.isWord_source.2 q.isWord_source.2
    (wordEnds_of_blanks (p.isGap_before.not_blanksEnd _))
    (wordEnds_of_blanks (q.isGap_before.not_blanksEnd _)) h
  obtain ⟨hbefore, h⟩ := split_unique p.isGap_before.2 q.isGap_before.2
    (p.isSymbol.blanksEnd _) (q.isSymbol.blanksEnd _) h
  have hdrawn {p : Phrase} : ∀ c ∈ p.symbol, (!Text.isBlank c) = true := fun c hc => by
    rw [(p.isSymbol.drawn c hc).1]; rfl
  obtain ⟨hsymbol, h⟩ := split_unique hdrawn hdrawn
    (any_not_isBlank (p.isGap_after.not_blanksEnd _))
    (any_not_isBlank (q.isGap_after.not_blanksEnd _)) h
  obtain ⟨hafter, h⟩ := split_unique p.isGap_after.2 q.isGap_after.2
    (p.isWord_target.blanksEnd _) (q.isWord_target.blanksEnd _) h
  obtain ⟨htarget, h⟩ := split_unique p.isWord_target.2 q.isWord_target.2
    (wordEnds_remarkChars _) (wordEnds_remarkChars _) h
  exact Phrase.ext hsource hbefore hsymbol hafter htarget (remarkChars_injective h)

/-! ### What is read -/

theorem label_remarkChars (remark : Option Remark) :
    label (remarkChars remark) = some (remarkLabel remark) := by
  cases remark with
  | none => rfl
  | some m =>
    have hcolon : trimStart (m.blanks ++ ':' :: m.text) = ':' :: m.text := by
      rw [trimStart_append m.isBlank, trimStart_of_ends (blanksEnd_cons.mpr (by decide))]
    unfold label remarkChars
    split
    · rename_i heq
      exact absurd heq (by simp)
    · -- a remark of blanks only is no label
      rw [hcolon]
      cases htext : trim m.text with
      | nil => simp [literal, remarkLabel, htext]
      | cons c cs => simp [literal, remarkLabel, htext]

theorem of_label {l : Option String} (h : label s = some l) :
    ∃ remark, s = remarkChars remark ∧ l = remarkLabel remark := by
  -- what stands behind the target is nothing, or a colon and a text
  have hremark : ∃ remark, s = remarkChars remark := by
    cases s with
    | nil => exact ⟨none, rfl⟩
    | cons c s =>
      obtain ⟨text, htext, _⟩ := Option.bind_eq_some_iff.mp h
      obtain ⟨blanks, hs, hblanks⟩ := trimStart_split (c :: s)
      rw [literal_eq_some_iff.mp htext] at hs
      exact ⟨some ⟨blanks, text, hblanks⟩, hs⟩
  obtain ⟨remark, rfl⟩ := hremark
  rw [label_remarkChars] at h
  exact ⟨remark, rfl, (Option.some.inj h).symm⟩

/-- The reader takes the text of a phrase for the statement of the phrase. -/
theorem ofChars?_chars (p : Phrase) :
    RelationStatement.ofChars? p.chars = some p.statement := by
  unfold RelationStatement.ofChars? Phrase.chars
  rw [word_append p.isWord_source (wordEnds_of_blanks (p.isGap_before.not_blanksEnd _))]
  simp only [Option.bind_eq_bind, Option.bind_some,
    gap_append p.isGap_before (p.isSymbol.blanksEnd _),
    symbol_append p.isSymbol (p.isGap_after.not_blanksEnd _),
    gap_append p.isGap_after (p.isWord_target.blanksEnd _),
    word_append p.isWord_target (wordEnds_remarkChars _), label_remarkChars]
  rfl

/-- Where the reader finds a statement there is a phrase. -/
theorem of_ofChars? {statement : RelationStatement}
    (h : RelationStatement.ofChars? s = some statement) :
    ∃ p : Phrase, p.chars = s ∧ p.statement = statement := by
  unfold RelationStatement.ofChars? at h
  -- the reader's steps: source, gap, symbol, gap, target, label
  obtain ⟨⟨source, s₁⟩, hsource, h⟩ := Option.bind_eq_some_iff.mp h
  obtain ⟨s₂, hbefore, h⟩ := Option.bind_eq_some_iff.mp h
  obtain ⟨⟨symbol, s₃⟩, hsymbol, h⟩ := Option.bind_eq_some_iff.mp h
  obtain ⟨s₄, hafter, h⟩ := Option.bind_eq_some_iff.mp h
  obtain ⟨⟨target, s₅⟩, htarget, h⟩ := Option.bind_eq_some_iff.mp h
  obtain ⟨l, hlabel, h⟩ := Option.bind_eq_some_iff.mp h
  -- and the piece of text that each of them has taken
  obtain ⟨rfl, isWord_source, _⟩ := word_eq_some_iff.mp hsource
  obtain ⟨hblanks, rfl⟩ := gap_eq_some_iff.mp hbefore
  obtain ⟨before, hne, hs₁, hall⟩ := gap_split hblanks
  obtain ⟨hs₂, isSymbol⟩ := of_symbol hsymbol
  obtain ⟨hblanks', rfl⟩ := gap_eq_some_iff.mp hafter
  obtain ⟨after, hne', hs₃, hall'⟩ := gap_split hblanks'
  obtain ⟨hs₄, isWord_target, _⟩ := word_eq_some_iff.mp htarget
  obtain ⟨remark, rfl, rfl⟩ := of_label hlabel
  refine ⟨⟨source, before, symbol, after, target, remark, isWord_source, ⟨hne, hall⟩, isSymbol,
    ⟨hne', hall'⟩, isWord_target⟩, ?_, Option.some.inj h⟩
  rw [hs₁, hs₂, hs₃, hs₄]
  rfl

/-- How a statement is understood: as a phrase, or as none because it is none. -/
def Understood (s : List Char) : Option Phrase → Prop
  | some p => p.chars = s
  | none => ∀ p : Phrase, p.chars ≠ s

/-- Every statement is understood, and the reader finds what the phrase states. -/
theorem exists_understood (s : List Char) :
    ∃ reading, Understood s reading ∧
      RelationStatement.ofChars? s = reading.map Phrase.statement := by
  cases hread : RelationStatement.ofChars? s with
  | some statement =>
    obtain ⟨p, hchars, hstatement⟩ := of_ofChars? hread
    exact ⟨some p, hchars, by rw [← hstatement]; rfl⟩
  | none =>
    refine ⟨none, ?_, rfl⟩
    -- the characters of a phrase are always read, so a line that is not read is none
    rintro p rfl
    rw [ofChars?_chars] at hread
    exact absurd hread (by simp)

theorem exists_readings (ss : List (List Char)) :
    ∃ readings, List.Forall₂ Understood ss readings ∧
      ss.filterMap RelationStatement.ofChars? =
        readings.filterMap (Option.map Phrase.statement) := by
  induction ss with
  | nil => exact ⟨[], .nil, rfl⟩
  | cons s ss ih =>
    obtain ⟨reading, hs, hread⟩ := exists_understood s
    obtain ⟨readings, hss, hreads⟩ := ih
    refine ⟨reading :: readings, .cons hs hss, ?_⟩
    rw [List.filterMap_cons, List.filterMap_cons, hread, hreads]

/-! ## Printed statements -/

/-- The label of a statement as it is printed. -/
def labelPart : Option String → String
  | none => ""
  | some label => " : " ++ label

/-- The line of a statement. -/
def RelationStatement.line (r : RelationStatement) : String :=
  r.source ++ " " ++ r.symbol ++ " " ++ r.target ++ labelPart r.label

/-- A label that can be printed: not empty, without blanks around it and without separators. -/
structure PlainLabel (label : String) : Prop where
  ne_empty : label.toList ≠ []
  trimmed : trim label.toList = label.toList
  whole : ∀ c ∈ label.toList, c ≠ '\n' ∧ c ≠ ';'

instance (label : String) : Decidable (PlainLabel label) :=
  decidable_of_iff (label.toList ≠ [] ∧ trim label.toList = label.toList ∧
    ∀ c ∈ label.toList, c ≠ '\n' ∧ c ≠ ';') ⟨fun ⟨a, b, c⟩ => ⟨a, b, c⟩, fun ⟨a, b, c⟩ => ⟨a, b, c⟩⟩

/-- A statement that can be printed. -/
structure Printable (r : RelationStatement) : Prop where
  source : IsWord r.source.toList
  symbol : IsSymbol r.symbol.toList
  target : IsWord r.target.toList
  label : ∀ l ∈ r.label, PlainLabel l

theorem toList_line (r : RelationStatement) : r.line.toList = r.source.toList ++ ' ' ::
    (r.symbol.toList ++ ' ' :: (r.target.toList ++ (labelPart r.label).toList)) := by
  simp [RelationStatement.line]

theorem PlainLabel.trimEnd {label : String} (h : PlainLabel label) :
    trimEnd label.toList = label.toList := by
  have hstart : BlanksEnd label.toList := by
    rw [← h.trimmed]
    unfold BlanksEnd
    rw [head?_trim]
    exact blanksEnd_trimStart _
  have htrim := h.trimmed
  unfold trim at htrim
  rwa [trimStart_of_ends hstart] at htrim

/-- Nothing is trimmed off the line of a statement: it begins with a name, and ends with a name or a
label. -/
theorem Printable.trim_line {r : RelationStatement} (h : Printable r) :
    trim r.line.toList = r.line.toList := by
  -- the line ends with a word or with a label, and neither ends in a blank
  have hend : ∃ u e, r.line.toList = u ++ e ∧ e ≠ [] ∧ Text.trimEnd e = e := by
    rw [toList_line]
    cases hl : r.label with
    | none =>
      refine ⟨r.source.toList ++ ' ' :: (r.symbol.toList ++ [' ']), r.target.toList, ?_,
        h.target.1, trimEnd_append_word [] h.target⟩
      simp [labelPart]
    | some l =>
      refine ⟨r.source.toList ++ ' ' :: (r.symbol.toList ++ ' ' :: (r.target.toList ++
        [' ', ':', ' '])), l.toList, ?_, (h.label l hl).ne_empty, (h.label l hl).trimEnd⟩
      simp [labelPart]
  obtain ⟨u, e, hline, hne, htrim⟩ := hend
  have hstart : BlanksEnd r.line.toList := by
    rw [toList_line]
    exact h.source.blanksEnd _
  unfold trim
  rw [trimStart_of_ends hstart, hline, trimEnd_append_of_ne_nil (htrim.symm ▸ hne), htrim]

theorem Printable.whole_line {r : RelationStatement} (h : Printable r) :
    ∀ c ∈ r.line.toList, c ≠ '\n' ∧ c ≠ ';' := by
  have hpart : ∀ c ∈ (labelPart r.label).toList, c ≠ '\n' ∧ c ≠ ';' := by
    cases hl : r.label with
    | none => exact fun c hc => absurd hc (by simp [labelPart])
    | some l =>
      intro c hc
      rw [labelPart, String.toList_append] at hc
      rcases List.mem_append.mp hc with hc | hc
      · exact (by decide : ∀ d ∈ " : ".toList, d ≠ '\n' ∧ d ≠ ';') c hc
      · exact (h.label l hl).whole c hc
  intro c hc
  rw [toList_line] at hc
  simp only [List.mem_append, List.mem_cons] at hc
  -- part by part, with the blanks between
  rcases hc with hc | rfl | hc | rfl | hc | hc
  · exact whole_of_isWord h.source c hc
  · decide
  · exact (h.symbol.drawn c hc).2
  · decide
  · exact whole_of_isWord h.target c hc
  · exact hpart c hc

/-- The phrase that is printed for a statement. -/
def Printable.phrase {r : RelationStatement} (h : Printable r) : Phrase where
  source := r.source.toList
  before := [' ']
  symbol := r.symbol.toList
  after := [' ']
  target := r.target.toList
  remark := r.label.map fun l => ⟨[' '], ' ' :: l.toList, isBlank_space⟩
  isWord_source := h.source
  isGap_before := isGap_space
  isSymbol := h.symbol
  isGap_after := isGap_space
  isWord_target := h.target

theorem Printable.chars_phrase {r : RelationStatement} (h : Printable r) :
    h.phrase.chars = r.line.toList := by
  rw [toList_line]
  cases hl : r.label with
  | none => simp [Phrase.chars, Printable.phrase, hl, remarkChars, labelPart]
  | some l => simp [Phrase.chars, Printable.phrase, hl, remarkChars, labelPart]

theorem Printable.statement_phrase {r : RelationStatement} (h : Printable r) :
    h.phrase.statement = r := by
  have hlabel : remarkLabel h.phrase.remark = r.label := by
    cases hl : r.label with
    | none => simp [Printable.phrase, hl, remarkLabel]
    | some l =>
      have htrim : trim (' ' :: l.toList) = l.toList := by
        unfold trim
        rw [trimStart_cons (by decide)]
        exact (h.label l hl).trimmed
      simp [Printable.phrase, hl, remarkLabel, htrim, (h.label l hl).ne_empty]
  unfold Phrase.statement
  rw [hlabel]
  simp [Printable.phrase]

/-- A printed statement is read back. -/
theorem Printable.relationStatements_line {r : RelationStatement} (h : Printable r) :
    relationStatements r.line = [r] := by
  have hread : RelationStatement.ofChars? (trim r.line.toList) = some r := by
    rw [h.trim_line, ← h.chars_phrase, ofChars?_chars, h.statement_phrase]
  have hone := h.whole_line
  rw [relationStatements_eq, List.splitOnP_eq_singleton fun c hc => by simpa using hone c hc]
  simp [hread]

/-- Printed statements are read back. -/
theorem relationStatements_lines {rs : List RelationStatement} (h : ∀ r ∈ rs, Printable r) :
    relationStatements (unlines (rs.map RelationStatement.line)) = rs := by
  induction rs with
  | nil => exact relationStatements_empty
  | cons r rs ih =>
    rw [List.map_cons, unlines, relationStatements_append (.inr ⟨_, rfl⟩),
      relationStatements_line, (h r (by simp)).relationStatements_line,
      ih fun x hx => h x (List.mem_cons_of_mem _ hx)]
    rfl

/-- **The grammar of relation statements.** In every text the relation statements are those of its
statements that are phrases, one for each and in order, and each says what the parts of its phrase
say. A phrase is read in one way only. Statements printed one on a line, with labels that are plain,
are read back as they were, whether or not a line break ends the last line. -/
theorem relationStatements_exact :
    (∀ text, ∃ readings, List.Forall₂ Understood (statements text) readings ∧
      relationStatements text = readings.filterMap (Option.map Phrase.statement) ∧
      relationsOf text = readings.filterMap (Option.map Phrase.relation)) ∧
    Function.Injective Phrase.chars ∧
    ∀ rs : List RelationStatement, (∀ r ∈ rs, Printable r) →
      relationStatements (unlines (rs.map RelationStatement.line)) = rs ∧
        ∀ text, text ++ "\n" = unlines (rs.map RelationStatement.line) →
          relationStatements text = rs := by
  refine ⟨?_, Phrase.chars_injective, ?_⟩
  · intro text
    -- both lists are read off the same phrases
    obtain ⟨readings, hall, hread⟩ := exists_readings (statements text)
    refine ⟨readings, hall, hread, ?_⟩
    unfold relationsOf relationStatements
    rw [hread, List.map_filterMap]
    refine List.filterMap_congr fun reading _ => ?_
    cases reading with
    | none => rfl
    | some p => rfl
  · intro rs hrs
    have hlines := relationStatements_lines hrs
    refine ⟨hlines, ?_⟩
    intro text htext
    rw [← relationStatements_line, htext, hlines]

/-- A printed list with circles at a symbol, and with a label that holds a symbol and a colon. -/
theorem relationStatements_exact_pets :
    (∀ r ∈ [⟨"Dog", "o--o", "Bone", none⟩, ⟨"Dog", "..|>", "Pet", some "is a : --> Pet"⟩],
      Printable r) ∧
    relationStatements "Dog o--o Bone\nDog ..|> Pet : is a : --> Pet\n" =
      [⟨"Dog", "o--o", "Bone", none⟩, ⟨"Dog", "..|>", "Pet", some "is a : --> Pet"⟩] := by
  have hprintable : ∀ r ∈ [⟨"Dog", "o--o", "Bone", none⟩,
      ⟨"Dog", "..|>", "Pet", some "is a : --> Pet"⟩], Printable r := by
    intro r hr
    rcases List.mem_pair.mp hr with rfl | rfl
    · refine ⟨by decide, ⟨['o'], ['-', '-'], ['o'], by decide, .inr rfl, .inr rfl, by decide,
        by decide⟩, by decide, by simp⟩
    · refine ⟨by decide, ⟨[], ['.', '.', '|', '>'], [], by decide, .inl rfl, .inl rfl, by decide,
        by decide⟩, by decide, ?_⟩
      rintro l ⟨⟩
      decide +kernel
  exact ⟨hprintable, (relationStatements_exact.2.2 _ hprintable).1⟩

end ClassAtlas.Markup
