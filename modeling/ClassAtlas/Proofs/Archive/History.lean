import ClassAtlas.Proofs.Archive
import Mathlib.Data.Set.Card

/-!
# An archive and its history

An archive keeps the diagrams and nothing of how they came there. Still the calls that were made
tell all of it: which ids are in use, which diagram an id finds, and in which order the diagrams
stand. An id is in use if it was saved and not deleted since; it finds what was last saved under it,
with the time of that call; and its place is that of the call by which it came into use, so saving
it again leaves it where it is, while deleting and saving it puts it behind all others.

All three are of the form that some call saved a diagram and the calls since then have left that as
it was, so what one more call does to them is one lemma, `since_concat`.
-/

namespace ClassAtlas.Archive

variable {K : Type}

/-- A call that changes an archive. -/
inductive Call (K : Type) where
  /-- A diagram is saved at the time that the clock shows. -/
  | save (now : Int) (d : Diagram K)
  | delete (id : String)

/-- The id that a call is about. -/
def Call.id : Call K → String
  | .save _ d => d.id
  | .delete id => id

/-- The archive after a call. -/
def call (archive : Archive K) : Call K → Archive K
  | .save now d => (archive.save now d).2
  | .delete id => archive.delete id

/-- The archive after some calls, if there was nothing in it before. -/
def ofCalls (calls : List (Call K)) : Archive K := calls.foldl call {}

/-! ## What a history says -/

/-- A call saved a diagram under certain circumstances, which are told by the calls before it, and
each call since then is of a certain kind. -/
def Since (calls : List (Call K)) (saved : List (Call K) → Int → Diagram K → Prop)
    (kept : Call K → Prop) : Prop :=
  ∃ before now d after, calls = before ++ .save now d :: after ∧ saved before now d ∧
    ∀ c ∈ after, kept c

/-- The id is in use: it was saved and has not been deleted since. -/
def Live (calls : List (Call K)) (id : String) : Prop :=
  Since calls (fun _ _ d => d.id = id) (· ≠ .delete id)

/-- The last call about the id of a diagram saved the diagram, at a certain time. -/
def LastSaved (calls : List (Call K)) (now : Int) (d : Diagram K) : Prop :=
  Since calls (fun _ now' d' => now' = now ∧ d' = d) (·.id ≠ d.id)

/-- Behind a certain number of calls, the id came into use, and it has stayed so since. -/
def Entered (calls : List (Call K)) (id : String) (place : Nat) : Prop :=
  Since calls (fun before _ d => before.length = place ∧ d.id = id ∧ ¬ Live before id)
    (· ≠ .delete id)

variable {calls : List (Call K)} {archive : Archive K} {c : Call K} {now now' : Int}
  {d d' x : Diagram K} {id deleted : String} {place place' : Nat}

section

variable {saved : List (Call K) → Int → Diagram K → Prop} {kept : Call K → Prop}

theorem not_since_nil : ¬ Since [] saved kept := by
  rintro ⟨before, now, d, after, hsplit, -⟩
  exact absurd hsplit (by simp)

/-- What one more call makes of a history. -/
theorem since_concat : Since (calls ++ [c]) saved kept ↔
    (∃ now d, c = .save now d ∧ saved calls now d) ∨ (Since calls saved kept ∧ kept c) := by
  constructor
  · rintro ⟨before, now, d, after, hsplit, hsaved, hkept⟩
    rcases after.eq_nil_or_concat with rfl | ⟨after, last, rfl⟩
    · -- the save is the call just made
      obtain ⟨rfl, hlast⟩ := List.append_inj' hsplit rfl
      exact .inl ⟨now, d, List.singleton_inj.mp hlast, hsaved⟩
    · -- the save is an earlier one, and the call just made is among those after it
      rw [List.concat_eq_append, ← List.cons_append, ← List.append_assoc] at hsplit
      obtain ⟨hcalls, hlast⟩ := List.append_inj' hsplit rfl
      obtain rfl := List.singleton_inj.mp hlast
      rw [List.concat_eq_append, List.forall_mem_append] at hkept
      exact .inr ⟨⟨before, now, d, after, hcalls, hsaved, hkept.1⟩, by simpa using hkept.2⟩
  · rintro (⟨now, d, rfl, hsaved⟩ | ⟨⟨before, now, d, after, rfl, hsaved, hkept⟩, hc⟩)
    · exact ⟨calls, now, d, [], rfl, hsaved, by simp⟩
    · refine ⟨before, now, d, after ++ [c], by simp, hsaved, ?_⟩
      rw [List.forall_mem_append]
      exact ⟨hkept, by simpa using hc⟩

end

theorem live_save : Live (calls ++ [.save now d]) id ↔ d.id = id ∨ Live calls id := by
  unfold Live
  rw [since_concat]
  simp

theorem live_delete : Live (calls ++ [.delete deleted]) id ↔ Live calls id ∧ deleted ≠ id := by
  unfold Live
  rw [since_concat]
  simp

theorem lastSaved_save : LastSaved (calls ++ [.save now d]) now' d' ↔
    (now = now' ∧ d = d') ∨ (LastSaved calls now' d' ∧ d.id ≠ d'.id) := by
  unfold LastSaved
  rw [since_concat]
  simp [Call.id]

theorem lastSaved_delete : LastSaved (calls ++ [.delete deleted]) now d ↔
    LastSaved calls now d ∧ deleted ≠ d.id := by
  unfold LastSaved
  rw [since_concat]
  simp [Call.id]

theorem entered_save : Entered (calls ++ [.save now d]) id place ↔
    (calls.length = place ∧ d.id = id ∧ ¬ Live calls id) ∨ Entered calls id place := by
  unfold Entered
  rw [since_concat]
  simp

theorem entered_delete : Entered (calls ++ [.delete deleted]) id place ↔
    Entered calls id place ∧ deleted ≠ id := by
  unfold Entered
  rw [since_concat]
  simp

/-! ## Places -/

theorem Entered.lt_length (h : Entered calls id place) : place < calls.length := by
  obtain ⟨before, now, d, after, rfl, ⟨rfl, -⟩, -⟩ := h
  simp

theorem Entered.live (h : Entered calls id place) : Live calls id := by
  obtain ⟨before, now, d, after, hsplit, ⟨-, hid, -⟩, hkept⟩ := h
  exact ⟨before, now, d, after, hsplit, hid, hkept⟩

/-- An id comes into use by one call. -/
theorem Entered.unique (h : Entered calls id place) (h' : Entered calls id place') :
    place = place' := by
  induction calls using List.reverseRecOn with
  | nil => exact absurd h not_since_nil
  | append_singleton calls c ih =>
    cases c with
    | delete deleted => exact ih (entered_delete.mp h).1 (entered_delete.mp h').1
    | save now d =>
      -- a key that was live cannot enter again, so both places come from the same call
      rcases entered_save.mp h with ⟨rfl, -, hnew⟩ | hold
      · rcases entered_save.mp h' with ⟨rfl, -⟩ | hold'
        · rfl
        · exact absurd hold'.live hnew
      · rcases entered_save.mp h' with ⟨rfl, -, hnew'⟩ | hold'
        · exact absurd hold.live hnew'
        · exact ih hold hold'

theorem exists_entered (h : Live calls id) : ∃ place, Entered calls id place := by
  induction calls using List.reverseRecOn with
  | nil => exact absurd h not_since_nil
  | append_singleton calls c ih =>
    cases c with
    | delete deleted =>
      obtain ⟨hlive, hne⟩ := live_delete.mp h
      exact (ih hlive).imp fun place hplace => entered_delete.mpr ⟨hplace, hne⟩
    | save now d =>
      by_cases hlive : Live calls id
      · exact (ih hlive).imp fun place hplace => entered_save.mpr (.inr hplace)
      · -- the key was not live before this call, so it enters with it
        have hid : d.id = id := (live_save.mp h).resolve_right hlive
        exact ⟨calls.length, entered_save.mpr (.inl ⟨rfl, hid, hlive⟩)⟩

theorem live_iff_entered : Live calls id ↔ ∃! place, Entered calls id place := by
  constructor
  · intro h
    obtain ⟨place, hplace⟩ := exists_entered h
    exact ⟨place, hplace, fun place' hplace' => hplace'.unique hplace⟩
  · rintro ⟨place, hplace, -⟩
    exact hplace.live

theorem live_iff_lastSaved : Live calls id ↔ ∃ now d, LastSaved calls now d ∧ d.id = id := by
  induction calls using List.reverseRecOn with
  | nil => simp [Live, LastSaved, not_since_nil]
  | append_singleton calls c ih =>
    cases c with
    | delete deleted =>
      simp only [live_delete, lastSaved_delete, ih]
      constructor
      · rintro ⟨⟨now, d, hlast, rfl⟩, hne⟩
        exact ⟨now, d, ⟨hlast, hne⟩, rfl⟩
      · rintro ⟨now, d, ⟨hlast, hne⟩, rfl⟩
        exact ⟨⟨now, d, hlast, rfl⟩, hne⟩
    | save now d =>
      simp only [live_save, lastSaved_save, ih]
      constructor
      · -- the call just made is the last save of its own key; for any other key nothing changed
        intro h
        by_cases hid : d.id = id
        · exact ⟨now, d, .inl ⟨rfl, rfl⟩, hid⟩
        · obtain ⟨now', d', hlast, rfl⟩ := h.resolve_left hid
          exact ⟨now', d', .inr ⟨hlast, hid⟩, rfl⟩
      · rintro ⟨now', d', ⟨rfl, rfl⟩ | ⟨hlast, -⟩, rfl⟩
        · exact .inl rfl
        · exact .inr ⟨now', d', hlast, rfl⟩

/-! ## An archive tells its history -/

/-- An archive is what some calls have made of an empty one. -/
structure Tells (archive : Archive K) (calls : List (Call K)) : Prop where
  /-- Every diagram is kept under its own id. -/
  keyed : archive.Keyed
  /-- The diagrams are the last ones under their ids, with the times at which they were saved. -/
  entries : ∀ id x, (id, x) ∈ archive.entries ↔
    ∃ now d, LastSaved calls now d ∧ d.id = id ∧ x = { d with updated := now }
  /-- No key is there twice. -/
  nodup : archive.keys.Nodup
  /-- Keys stand in the order in which they came into use. -/
  order : archive.keys.Pairwise fun id id' =>
    ∀ place place', Entered calls id place → Entered calls id' place' → place < place'

theorem tells_nil : Tells ({} : Archive K) [] where
  keyed := keyed_empty
  entries := by
    intro id x
    simp [LastSaved, not_since_nil]
  nodup := List.nodup_nil
  order := List.Pairwise.nil

theorem Tells.mem_keys_iff (h : archive.Tells calls) : id ∈ archive.keys ↔ Live calls id := by
  rw [live_iff_lastSaved, keys, List.mem_map]
  constructor
  · rintro ⟨⟨id, x⟩, hentry, rfl⟩
    obtain ⟨now, d, hlast, hid, -⟩ := (h.entries id x).mp hentry
    exact ⟨now, d, hlast, hid⟩
  · rintro ⟨now, d, hlast, rfl⟩
    exact ⟨_, (h.entries _ _).mpr ⟨now, d, hlast, rfl, rfl⟩, rfl⟩

theorem Tells.contains_iff (h : archive.Tells calls) :
    archive.contains id = true ↔ Live calls id :=
  Archive.contains_iff.trans h.mem_keys_iff

theorem Tells.save (h : archive.Tells calls) (now : Int) (d : Diagram K) :
    (archive.save now d).2.Tells (calls ++ [.save now d]) := by
  have hkeys : (archive.save now d).2.keys =
      archive.keys ++ if archive.contains d.id then [] else [d.id] := keys_put
  refine ⟨h.keyed.put rfl, ?_, ?_, ?_⟩
  · intro id x
    have hmem : (id, x) ∈ (archive.save now d).2.entries ↔
        (id, x) = (d.id, { d with updated := now }) ∨ ((id, x) ∈ archive.entries ∧ d.id ≠ id) :=
      mem_put
    simp only [hmem, lastSaved_save, h.entries]
    constructor
    · rintro (hnew | ⟨⟨now', d', hlast, rfl, rfl⟩, hne⟩)
      · obtain ⟨rfl, rfl⟩ := Prod.mk.inj hnew
        exact ⟨now, d, .inl ⟨rfl, rfl⟩, rfl, rfl⟩
      · exact ⟨now', d', .inr ⟨hlast, hne⟩, rfl, rfl⟩
    · rintro ⟨now', d', ⟨rfl, rfl⟩ | ⟨hlast, hne⟩, rfl, rfl⟩
      · exact .inl rfl
      · exact .inr ⟨⟨now', d', hlast, rfl, rfl⟩, hne⟩
  · rw [hkeys]
    split
    · rw [List.append_nil]
      exact h.nodup
    · rename_i hcontains
      have hnew : d.id ∉ archive.keys := fun hmem => hcontains (Archive.contains_iff.mpr hmem)
      exact List.nodup_append_comm.mp (List.nodup_cons.mpr ⟨hnew, h.nodup⟩)
  · -- a key that is there came into use by an earlier call, and the new one by this call
    have hold : ∀ id ∈ archive.keys, ∀ place,
        Entered (calls ++ [.save now d]) id place → Entered calls id place := by
      intro id hid place hplace
      exact (entered_save.mp hplace).resolve_left fun hnew => hnew.2.2 (h.mem_keys_iff.mp hid)
    have horder := h.order.imp_of_mem fun {id id'} hid hid' hbefore place place' hplace hplace' =>
      hbefore place place' (hold id hid place hplace) (hold id' hid' place' hplace')
    rw [hkeys]
    split
    · rw [List.append_nil]
      exact horder
    · rename_i hcontains
      rw [List.pairwise_append]
      refine ⟨horder, List.pairwise_singleton .., ?_⟩
      rintro id hid id' hid' place place' hplace hplace'
      obtain rfl := List.mem_singleton.mp hid'
      have hnew : ¬ Live calls d.id := fun hlive => hcontains (h.contains_iff.mpr hlive)
      rcases entered_save.mp hplace' with ⟨rfl, -⟩ | hlive
      · exact (hold id hid place hplace).lt_length
      · exact absurd hlive.live hnew

theorem Tells.delete (h : archive.Tells calls) (id : String) :
    (archive.delete id).Tells (calls ++ [.delete id]) := by
  have hsub : (archive.delete id).keys.Sublist archive.keys := List.filter_sublist.map _
  refine ⟨h.keyed.delete id, ?_, hsub.nodup h.nodup, ?_⟩
  · intro key x
    simp only [mem_delete, lastSaved_delete, h.entries]
    constructor
    · rintro ⟨⟨now, d, hlast, rfl, rfl⟩, hne⟩
      exact ⟨now, d, ⟨hlast, hne⟩, rfl, rfl⟩
    · rintro ⟨now, d, ⟨hlast, hne⟩, rfl, rfl⟩
      exact ⟨⟨now, d, hlast, rfl, rfl⟩, hne⟩
  · -- the keys that stay keep their order and entered where they did
    refine (h.order.sublist hsub).imp fun {x y} hbefore place place' hplace hplace' => ?_
    exact hbefore place place' (entered_delete.mp hplace).1 (entered_delete.mp hplace').1

/-- Every call keeps the archive true to its history. -/
theorem Tells.call (h : archive.Tells calls) (c : Call K) :
    (archive.call c).Tells (calls ++ [c]) := by
  cases c with
  | save now d => exact h.save now d
  | delete id => exact h.delete id

theorem tells_ofCalls (calls : List (Call K)) : (ofCalls calls).Tells calls := by
  induction calls using List.reverseRecOn with
  | nil => exact tells_nil
  | append_singleton calls c ih =>
    have hstep : ofCalls (calls ++ [c]) = (ofCalls calls).call c := List.foldl_append
    exact hstep ▸ ih.call c

theorem Tells.find?_eq_some_iff (h : archive.Tells calls) : archive.find? id = some x ↔
    ∃ now d, LastSaved calls now d ∧ d.id = id ∧ x = { d with updated := now } := by
  rw [← h.entries]
  exact ⟨entry_of_find?, find?_of_entry h.nodup⟩

theorem Tells.size_eq (h : archive.Tells calls) : archive.size = {id | Live calls id}.ncard := by
  have hlive : {id | Live calls id} = (archive.keys.toFinset : Set String) := by
    ext id
    rw [Set.mem_ofPred_eq, Finset.mem_coe, List.mem_toFinset, h.mem_keys_iff]
  rw [hlive, Set.ncard_coe_finset, List.toFinset_card_of_nodup h.nodup, keys, List.length_map]
  rfl

/-- **An archive is its history.** After any calls that save and delete diagrams, from an empty
archive: an id is found exactly if it was saved and has not been deleted since; what it finds is the
diagram that was last saved under it, with the time of that call for its stamp and all else as it
was given; every diagram is kept under its own id; the list of diagrams holds just what its ids
find, each once, in the order in which the ids came into use; and there are as many diagrams as ids
in use. -/
theorem archive_is_history (calls : List (Call K)) :
    let archive := ofCalls calls
    (∀ id, archive.contains id = true ↔ Live calls id) ∧
      (∀ id, archive.find? id = none ↔ ¬ Live calls id) ∧
      (∀ id x, archive.find? id = some x ↔
        ∃ now d, LastSaved calls now d ∧ d.id = id ∧ x = { d with updated := now }) ∧
      (∀ entry ∈ archive.entries, entry.2.id = entry.1) ∧
      (∀ x, x ∈ archive.diagrams ↔ archive.find? x.id = some x) ∧
      (archive.diagrams.map Diagram.id).Nodup ∧
      (∀ id, Live calls id ↔ ∃! place, Entered calls id place) ∧
      ((archive.diagrams.map Diagram.id).Pairwise fun id id' =>
        ∀ place place', Entered calls id place → Entered calls id' place' → place < place') ∧
      archive.size = {id | Live calls id}.ncard := by
  intro archive
  -- the archive tells the calls after each one, and the clauses are what that means
  have h : archive.Tells calls := tells_ofCalls calls
  have hkeys : archive.keys = archive.diagrams.map Diagram.id := h.keyed.keys_eq
  have hnodup : (archive.diagrams.map Diagram.id).Nodup := hkeys ▸ h.nodup
  refine ⟨fun _ => h.contains_iff, fun id => ?_, fun _ _ => h.find?_eq_some_iff, h.keyed, ?_,
    hnodup, fun _ => live_iff_entered, hkeys ▸ h.order, h.size_eq⟩
  · rw [find?_eq_none_iff, h.mem_keys_iff]
  · intro x
    exact ⟨h.keyed.find?_of_mem hnodup, fun hfind => (h.keyed.of_find? hfind).1⟩

/-- A diagram that is saved again keeps its place; one that was deleted comes back behind it. -/
example :
    let dogs : Diagram Nat := { id := "dogs", name := "Dogs", created := 0, updated := 0 }
    let cats : Diagram Nat := { id := "cats", name := "Cats", created := 1, updated := 1 }
    (ofCalls [.save 2 dogs, .save 3 cats, .delete "dogs", .save 4 dogs, .save 5 cats]).diagrams =
      [{ cats with updated := 5 }, { dogs with updated := 4 }] := by
  decide

end ClassAtlas.Archive
