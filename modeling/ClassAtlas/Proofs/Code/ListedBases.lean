import ClassAtlas.Proofs.Code.BaseLists

/-!
# Type arguments within a base

What a list of bases is read as is what its parts are read as, each on its own, if no part can be
split and none of them begins constraints. Type arguments may stand at any name of a dotted base.
The list is split with respect to them, but a part is read only up to its first angle bracket: the
name that is found is the first one with type arguments, and only where it is also the last one is
it the name that the base has without them.
-/

namespace ClassAtlas.Code

open Text

variable {before : Option Char} {g l p s rest : List Char}

/-! ## Parts of a list -/

theorem trim_blanks (hl : ∀ c ∈ l, isBlank c = true) (hg : ∀ c ∈ g, isBlank c = true) :
    trim (l ++ (s ++ g)) = trim s := by
  unfold trim
  rw [trimStart_append hl]
  by_cases hs : trimStart s = []
  · -- nothing but blanks
    have hblank : ∀ c ∈ s, isBlank c = true := List.dropWhile_eq_nil_iff.mp hs
    have hnone : trimStart (s ++ g) = [] :=
      List.dropWhile_eq_nil_iff.mpr (List.forall_mem_append.mpr ⟨hblank, hg⟩)
    rw [hnone, hs]
  · rw [trimStart_append_of_ne_nil hs, trimEnd_append_blanks _ hg]

/-- Blanks around a part make no difference. -/
theorem baseName?_blanks (hl : ∀ c ∈ l, isBlank c = true) (hg : ∀ c ∈ g, isBlank c = true) :
    baseName? (l ++ (p ++ g)) = baseName? p := by
  have hblank {u : List Char} (hu : ∀ c ∈ u, isBlank c = true) :
      ∀ c ∈ u, decide (c ≠ '<') = true := by
    intro c hc
    refine decide_eq_true ?_
    rintro rfl
    exact absurd (hu _ hc) (by decide)
  have hread : trim ((l ++ (p ++ g)).takeWhile fun c => decide (c ≠ '<')) =
      trim (p.takeWhile fun c => decide (c ≠ '<')) := by
    rw [List.takeWhile_append_of_pos (hblank hl), List.takeWhile_append]
    split
    · -- no angle bracket in the name: the blanks behind it are cut off by the trimming
      rename_i hall
      have hp : p.takeWhile (fun c => decide (c ≠ '<')) = p :=
        (List.takeWhile_prefix _).eq_of_length hall
      rw [List.takeWhile_eq_self_iff.mpr (hblank hg), trim_blanks hl hg, hp]
    · -- with an angle bracket, the blanks behind it are dropped together with the arguments
      have hnone := trim_blanks (s := p.takeWhile fun c => decide (c ≠ '<')) hl (g := []) (by simp)
      rwa [List.append_nil] at hnone
  unfold baseName?
  rw [hread]

/-- A part of a list: nothing splits it, and no constraints begin in it. -/
structure IsPart (p : List Char) : Prop where
  unsplit : ∀ s, splitTop 0 (p ++ s) = (splitTop 0 s).modifyHead (p ++ ·)
  unconstrained : ∀ before rest, WordEnds rest → Nowhere (Matches whereWord) before p rest

theorem splitTop_cons_comma (s : List Char) : splitTop 0 (',' :: s) = [] :: splitTop 0 s := by
  rw [splitTop]
  simp

theorem splitTop_of_blanks (hg : ∀ c ∈ g, isBlank c = true) : splitTop 0 g = [g] := by
  have happend := splitTop_blanks hg 0 []
  rwa [List.append_nil, show splitTop 0 [] = [[]] from rfl, List.modifyHead_cons,
    List.append_nil] at happend

theorem filterMap_splitTop_parts {ps : List (List Char)} (hp : IsPart p) (hps : ∀ q ∈ ps, IsPart q)
    (hl : ∀ c ∈ l, isBlank c = true) (hg : ∀ c ∈ g, isBlank c = true) :
    (splitTop 0 (l ++ (p ++ ((ps.flatMap fun q => ',' :: ' ' :: q) ++ g)))).filterMap baseName? =
      (p :: ps).filterMap baseName? := by
  -- a comma ends the part before it, and the blank behind it leads the next part
  induction ps generalizing p l with
  | nil =>
    rw [List.flatMap_nil, List.nil_append, splitTop_blanks hl, hp.unsplit, splitTop_of_blanks hg]
    simp only [List.modifyHead_cons, List.filterMap_cons, List.filterMap_nil,
      baseName?_blanks hl hg]
  | cons q ps ih =>
    have hrest := ih (hps q (by simp)) (fun x hx => hps x (List.mem_cons_of_mem _ hx)) isBlank_space
    have hfirst : baseName? (l ++ p) = baseName? p := by
      have hblanks := baseName?_blanks (p := p) hl (g := []) (by simp)
      rwa [List.append_nil] at hblanks
    rw [List.singleton_append] at hrest
    rw [List.flatMap_cons, List.cons_append, List.cons_append, List.cons_append, List.cons_append,
      List.append_assoc, splitTop_blanks hl, hp.unsplit, splitTop_cons_comma, List.modifyHead_cons,
      List.modifyHead_cons, List.append_nil, List.filterMap_cons,
      List.filterMap_cons (l := q :: ps), hrest, hfirst]

theorem nowhere_whereWord_listed {ps : List (List Char)} (hps : ∀ q ∈ ps, IsPart q)
    (hr : WordEnds rest) : Nowhere (Matches whereWord) before (listed ps) rest :=
  nowhere_listed lexical_whereWord.wordy (F := WordEnds)
    (fun q hq b r hr => (hps q hq).unconstrained b r hr) (fun _ => by rfl) hr

/-- A list is read part by part. -/
theorem baseNames_parts {ps : List (List Char)} (hps : ∀ q ∈ ps, IsPart q)
    (hg : ∀ c ∈ g, isBlank c = true) : baseNames (listed ps ++ g) = ps.filterMap baseName? := by
  have hends : WordEnds g := by
    have hblanks := wordEnds_blanks_append hg wordEnds_nil
    rwa [List.append_nil] at hblanks
  -- no constraint follows, so the whole text is split
  have hwhole : untilFirst whereWord none (listed ps ++ g) = listed ps ++ g := by
    have hnone : Nowhere (Matches whereWord) none (listed ps ++ g) [] :=
      Nowhere.append (nowhere_whereWord_listed hps (by rwa [List.append_nil]))
        (nowhere_blanks lexical_whereWord.wordy hg)
    have huntil := untilFirst_of_match hnone (.inl rfl)
    rwa [List.append_nil] at huntil
  unfold baseNames
  rw [hwhole]
  cases ps with
  | nil =>
    have hnone := baseName?_blanks (p := []) (l := []) (by simp) hg
    rw [listed, List.nil_append, splitTop_of_blanks hg, List.filterMap_cons]
    rw [List.nil_append, List.nil_append] at hnone
    rw [hnone]
    rfl
  | cons p ps =>
    have hread := filterMap_splitTop_parts (l := []) (hps p (by simp))
      (fun q hq => hps q (List.mem_cons_of_mem _ hq)) (by simp) hg
    rw [listed, List.append_assoc]
    exact hread

/-! ## Dotted bases -/

/-- A name of a dotted base, perhaps with type arguments. -/
structure Component where
  name : String
  arguments : Option (List Char)
  isIdentifier : Text.isIdentifier name.toList = true
  notWhere : name ≠ "where"
  balanced : ∀ s ∈ arguments, Code.balanced 0 s = true
  unconstrained : ∀ s ∈ arguments, "where".toList ∉ wordsOf s

namespace Component

def chars (c : Component) : List Char :=
  c.name.toList ++ c.arguments.elim [] fun s => '<' :: (s ++ ['>'])

/-- The same name without type arguments. -/
def bare (c : Component) : Component :=
  ⟨c.name, none, c.isIdentifier, c.notWhere, by simp, by simp⟩

theorem isWord_name (c : Component) : IsWord c.name.toList := isWord_of_isIdentifier c.isIdentifier

/-- The name as a base of its own. -/
def written (c : Component) : WrittenBase where
  lead := []
  qualifiers := []
  name := c.name
  arguments := c.arguments
  trail := []
  isBlank_lead := isBlank_nil
  isBlank_trail := isBlank_nil
  isIdentifier := List.forall_mem_singleton.mpr c.isIdentifier
  notWhere := List.forall_mem_singleton.mpr c.notWhere
  balanced := c.balanced
  unconstrained := c.unconstrained

theorem chars_written (c : Component) : c.written.chars = c.chars := by
  simp [WrittenBase.chars, WrittenBase.pathChars, WrittenBase.qualifierChars,
    WrittenBase.argumentChars, written, chars]

theorem isPart (c : Component) : IsPart c.chars := by
  rw [← chars_written]
  exact ⟨splitTop_writtenBase c.written, fun _ _ => nowhere_whereWord_written c.written⟩

/-- Up to the first angle bracket a name is left alone, and its arguments end what is left. -/
theorem takeWhile_chars (c : Component) (s : List Char) :
    (c.chars ++ s).takeWhile (fun d => decide (d ≠ '<')) =
      c.name.toList ++
        if c.arguments.isSome then [] else s.takeWhile fun d => decide (d ≠ '<') := by
  have hname : ∀ d ∈ c.name.toList, decide (d ≠ '<') = true := by
    refine fun d hd => decide_eq_true ?_
    rintro rfl
    exact absurd (c.isWord_name.2 _ hd) (by decide)
  unfold chars
  rw [List.append_assoc, List.takeWhile_append_of_pos hname]
  cases c.arguments with
  | none => rfl
  | some t => simp

theorem pathChars_bare (c : Component) : c.bare.written.pathChars = c.name.toList := by
  simp [WrittenBase.pathChars, WrittenBase.qualifierChars, written, bare]

/-- A path with one more name before it. -/
def qualify (c : Component) (b : WrittenBase) : WrittenBase where
  lead := b.lead
  qualifiers := c.name :: b.qualifiers
  name := b.name
  arguments := b.arguments
  trail := b.trail
  isBlank_lead := b.isBlank_lead
  isBlank_trail := b.isBlank_trail
  isIdentifier := by
    have hall := b.isIdentifier
    simp only [List.mem_cons, forall_eq_or_imp] at hall ⊢
    exact ⟨hall.1, c.isIdentifier, hall.2⟩
  notWhere := by
    have hall := b.notWhere
    simp only [List.mem_cons, forall_eq_or_imp] at hall ⊢
    exact ⟨hall.1, c.notWhere, hall.2⟩
  balanced := b.balanced
  unconstrained := b.unconstrained

theorem pathChars_qualify (c : Component) (b : WrittenBase) :
    (c.qualify b).pathChars = c.name.toList ++ '.' :: b.pathChars := by
  simp [WrittenBase.pathChars, WrittenBase.qualifierChars, qualify]

end Component

/-- A base as a dotted path: a name, and the names behind it. -/
structure DottedBase where
  first : Component
  others : List Component

/-- The text of a path. -/
def dottedChars (c : Component) (cs : List Component) : List Char :=
  c.chars ++ cs.flatMap fun d => '.' :: d.chars

/-- The first name of a path that has type arguments, or the last one if none has. -/
def nameInPath : Component → List Component → String
  | c, [] => c.name
  | c, d :: ds => if c.arguments.isSome then c.name else nameInPath d ds

namespace DottedBase

def chars (b : DottedBase) : List Char := dottedChars b.first b.others

/-- The base with all type arguments taken out of it. -/
def bare (b : DottedBase) : DottedBase := ⟨b.first.bare, b.others.map Component.bare⟩

/-- The name that is read. -/
def shownName (b : DottedBase) : String := nameInPath b.first b.others

/-- The last name, which is that of the base. -/
def lastName (b : DottedBase) : String := (b.others.getLastD b.first).name

end DottedBase

theorem IsPart.dotted {p q : List Char} (hp : IsPart p) (hq : IsPart q) :
    IsPart (p ++ '.' :: q) where
  unsplit s := by
    have hdot : splitTop 0 (['.'] ++ (q ++ s)) = (splitTop 0 (q ++ s)).modifyHead (['.'] ++ ·) :=
      splitTop_append (by decide) _
    rw [List.append_assoc, hp.unsplit, List.cons_append, ← List.singleton_append, hdot, hq.unsplit,
      List.modifyHead_modifyHead, List.modifyHead_modifyHead]
    refine congrArg (List.modifyHead · _) (funext fun r => ?_)
    simp only [Function.comp_apply, List.append_assoc, List.cons_append, List.nil_append]
  unconstrained before rest hr := by
    have hdot : WordEnds ('.' :: q ++ rest) := by rfl
    exact Nowhere.append (hp.unconstrained _ _ hdot)
      ((nowhere_mark lexical_whereWord.wordy (by decide)).mpr (hq.unconstrained _ _ hr))

theorem isPart_path (c : Component) (cs : List Component) : IsPart (dottedChars c cs) := by
  induction cs generalizing c with
  | nil =>
    rw [dottedChars, List.flatMap_nil, List.append_nil]
    exact c.isPart
  | cons d ds ih =>
    rw [dottedChars, List.flatMap_cons, List.cons_append]
    exact c.isPart.dotted (ih d)

/-- Up to its first angle bracket a path is a path without type arguments. -/
theorem takeWhile_path (c : Component) (cs : List Component) :
    ∃ b : WrittenBase, b.name = nameInPath c cs ∧
      (dottedChars c cs).takeWhile (fun d => decide (d ≠ '<')) = b.pathChars := by
  induction cs generalizing c with
  | nil =>
    refine ⟨c.bare.written, rfl, ?_⟩
    rw [dottedChars, List.flatMap_nil, c.takeWhile_chars, List.takeWhile_nil, ite_self,
      List.append_nil, c.pathChars_bare]
  | cons d ds ih =>
    have hread := c.takeWhile_chars ('.' :: dottedChars d ds)
    rw [dottedChars, List.flatMap_cons, List.cons_append]
    by_cases hsome : c.arguments.isSome = true
    · -- the first name with type arguments is where the reading stops
      refine ⟨c.bare.written, (if_pos hsome).symm, ?_⟩
      rw [if_pos hsome, List.append_nil] at hread
      exact hread.trans c.pathChars_bare.symm
    · obtain ⟨b, hb, hpath⟩ := ih d
      refine ⟨c.qualify b, hb.trans (if_neg hsome).symm, ?_⟩
      rw [if_neg hsome, List.takeWhile_cons_of_pos (by decide), hpath] at hread
      exact hread.trans (c.pathChars_qualify b).symm

theorem baseName?_path (c : Component) (cs : List Component) :
    baseName? (dottedChars c cs) = some (nameInPath c cs) := by
  obtain ⟨b, hname, htake⟩ := takeWhile_path c cs
  have htrim : trim b.pathChars = b.pathChars := by
    have hblanks := trim_path b (l := []) (g := []) (by simp) (by simp)
    rwa [List.nil_append, List.append_nil] at hblanks
  unfold baseName?
  rw [htake, htrim, lastName_path]
  dsimp only
  rw [if_pos (b.isIdentifier b.name (by simp)), String.ofList_toList, hname]

namespace DottedBase

theorem nameInPath_bare (c : Component) (cs : List Component) :
    nameInPath c.bare (cs.map Component.bare) = (cs.getLastD c).name := by
  induction cs generalizing c with
  | nil => rfl
  | cons d ds ih =>
    rw [List.getLastD_cons]
    exact ih d

theorem baseName?_chars (b : DottedBase) : baseName? b.chars = some b.shownName :=
  baseName?_path b.first b.others

theorem baseNames_dotted (bs : List DottedBase) :
    baseNames (listed (bs.map chars)) = bs.map shownName := by
  have hparts : ∀ q ∈ bs.map chars, IsPart q := by
    intro q hq
    obtain ⟨b, _, rfl⟩ := List.mem_map.mp hq
    exact isPart_path b.first b.others
  have hread := baseNames_parts (g := []) hparts (by simp)
  rw [List.append_nil] at hread
  have hnames : baseName? ∘ chars = some ∘ shownName := by
    funext b
    rw [Function.comp_apply, Function.comp_apply, baseName?_chars]
  rw [hread, List.filterMap_map, hnames, List.filterMap_eq_map]

end DottedBase

/-- **Type arguments within a base.** Of every base in a list the name is read that stands before
its first type arguments, the last one if it has none. With all type arguments taken out of the list
the last names are read. So type arguments make no difference exactly where the name before the
first ones is the last name of its base. -/
theorem arguments_within_bases (bs : List DottedBase) :
    baseNames (listed (bs.map DottedBase.chars)) = bs.map DottedBase.shownName ∧
      baseNames (listed (bs.map fun b => b.bare.chars)) = bs.map DottedBase.lastName ∧
      (baseNames (listed (bs.map DottedBase.chars)) =
          baseNames (listed (bs.map fun b => b.bare.chars)) ↔
        ∀ b ∈ bs, b.shownName = b.lastName) := by
  have hbare : baseNames (listed (bs.map fun b => b.bare.chars)) = bs.map DottedBase.lastName := by
    have hread := DottedBase.baseNames_dotted (bs.map DottedBase.bare)
    simp only [List.map_map, Function.comp_def] at hread
    refine hread.trans (List.map_congr_left fun b _ => ?_)
    exact DottedBase.nameInPath_bare b.first b.others
  refine ⟨DottedBase.baseNames_dotted bs, hbare, ?_⟩
  rw [DottedBase.baseNames_dotted, hbare]
  exact List.map_inj_left

/-- A class within a class with a type argument. -/
def treeNode : DottedBase where
  first := ⟨"Tree", some "int".toList, by decide +kernel, by decide, by decide +kernel,
    by decide +kernel⟩
  others := [⟨"Node", none, by decide +kernel, by decide, by simp, by simp⟩]

/-- The class with the type argument is read as the base, and not the one within it. -/
theorem argument_hides_the_base :
    ¬ ∀ bs : List DottedBase, (∀ b ∈ bs, ∀ d ∈ b.chars, staysInList d = true) →
      baseNames (listed (bs.map DottedBase.chars)) =
        baseNames (listed (bs.map fun b => b.bare.chars)) := by
  intro hclaim
  have hwith : baseNames (listed ([treeNode].map DottedBase.chars)) = ["Tree"] := by decide +kernel
  have hwithout : baseNames (listed ([treeNode].map fun b => b.bare.chars)) = ["Node"] := by
    decide +kernel
  have hstays : ∀ b ∈ [treeNode], ∀ d ∈ b.chars, staysInList d = true := by decide +kernel
  have hsame := hclaim [treeNode] hstays
  rw [hwith, hwithout] at hsame
  exact absurd hsame (by decide)

end ClassAtlas.Code
