import ClassAtlas.Archive
import ClassAtlas.Proofs.Repetition
import Mathlib.Data.List.Nodup
import Mathlib.Data.List.Pairwise

/-!
# Keeping diagrams under their ids

An archive looks diagrams up by their keys, and nothing makes a key the id of its diagram but the
way in which diagrams are saved. Where every diagram is kept under its own id and all ids in an
archive are distinct, an id finds the one diagram that bears it. A diagram that is put back takes
the place of the one with its id, and a diagram with a new id goes to the end.
-/

namespace ClassAtlas

variable {K : Type}

/-- The ids of the elements of a diagram, in order. -/
def Diagram.ids (d : Diagram K) : List String := d.elements.map Element.id

/-- The id of a diagram and those of its elements. -/
def Diagram.allIds (d : Diagram K) : List String := d.id :: d.ids

/-- All ids in use in an archive. -/
def Archive.ids (archive : Archive K) : List String := archive.diagrams.flatMap Diagram.allIds

namespace Archive

variable {archive : Archive K} {d d' : Diagram K} {front back : List (Diagram K)}
  {entry : String × Diagram K} {key id x : String}

theorem ids_append_cons (h : archive.diagrams = front ++ d :: back) :
    archive.ids = front.flatMap Diagram.allIds ++ d.allIds ++ back.flatMap Diagram.allIds := by
  unfold ids
  rw [h, List.flatMap_append, List.flatMap_cons, List.append_assoc]

theorem mem_ids : x ∈ archive.ids ↔ ∃ d ∈ archive.diagrams, x ∈ d.allIds := List.mem_flatMap

/-! ## Distinct ids -/

theorem nodup_allIds (hn : archive.ids.Nodup) (hd : d ∈ archive.diagrams) : d.allIds.Nodup :=
  (List.nodup_flatMap.mp hn).1 d hd

theorem nodup_diagramIds (hn : archive.ids.Nodup) : (archive.diagrams.map Diagram.id).Nodup := by
  unfold List.Nodup
  rw [List.pairwise_map]
  refine (List.nodup_flatMap.mp hn).2.imp ?_
  intro d d' hdisjoint heq
  exact hdisjoint (List.mem_cons_self ..) (heq ▸ List.mem_cons_self ..)

/-- An id belongs to one diagram only. -/
theorem eq_of_mem_allIds (hn : archive.ids.Nodup) (hd : d ∈ archive.diagrams)
    (hd' : d' ∈ archive.diagrams) (hx : x ∈ d.allIds) (hx' : x ∈ d'.allIds) : d = d' := by
  by_contra hne
  have : Std.Symm (Function.onFun List.Disjoint (Diagram.allIds (K := K))) :=
    ⟨fun _ _ => List.disjoint_symm⟩
  exact (List.nodup_flatMap.mp hn).2.forall hd hd' hne hx hx'

/-! ## Keys -/

/-- The keys of an archive, in order. -/
def keys (archive : Archive K) : List String := archive.entries.map (·.1)

theorem contains_iff : archive.contains key = true ↔ key ∈ archive.keys := by
  simp [contains, keys]

theorem entry_of_find? (h : archive.find? key = some d) : (key, d) ∈ archive.entries := by
  obtain ⟨entry, hentry, rfl⟩ := Option.map_eq_some_iff.mp h
  have hkey : entry.1 = key := by simpa using List.find?_some hentry
  exact hkey ▸ List.mem_of_find?_eq_some hentry

theorem find?_of_entry (hn : archive.keys.Nodup) (h : (key, d) ∈ archive.entries) :
    archive.find? key = some d := by
  have hkeys : (archive.entries.map Prod.fst).Nodup := hn
  unfold find?
  rw [find?_key_of_mem hkeys h]
  rfl

theorem find?_eq_none_iff : archive.find? key = none ↔ key ∉ archive.keys := by
  unfold find? keys
  rw [Option.map_eq_none_iff, List.find?_eq_none, List.mem_map, not_exists]
  exact forall_congr' fun entry => by simp

/-- What is there after a diagram has been put in: it, and all that has other keys. -/
theorem mem_put : entry ∈ (archive.put key d).entries ↔
    entry = (key, d) ∨ (entry ∈ archive.entries ∧ key ≠ entry.1) := by
  unfold put
  dsimp only
  split
  · rename_i hcontains
    -- the key is there: its entry is exchanged where it stands
    obtain ⟨old, hold, hkey⟩ := List.mem_map.mp (contains_iff.mp hcontains)
    rw [List.mem_map]
    constructor
    · rintro ⟨other, hother, rfl⟩
      by_cases hsame : other.1 = key
      · exact .inl (if_pos hsame)
      · rw [if_neg hsame]
        exact .inr ⟨hother, Ne.symm hsame⟩
    · rintro (rfl | ⟨hentry, hne⟩)
      · exact ⟨old, hold, if_pos hkey⟩
      · exact ⟨entry, hentry, if_neg (Ne.symm hne)⟩
  · rename_i hcontains
    -- the key is new: the entry comes last
    rw [List.mem_append, List.mem_singleton]
    constructor
    · rintro (hentry | rfl)
      · refine .inr ⟨hentry, fun hkey => hcontains (contains_iff.mpr ?_)⟩
        exact hkey ▸ List.mem_map_of_mem hentry
      · exact .inl rfl
    · rintro (rfl | ⟨hentry, -⟩)
      · exact .inr rfl
      · exact .inl hentry

theorem keys_put : (archive.put key d).keys =
    archive.keys ++ if archive.contains key then [] else [key] := by
  unfold keys put
  dsimp only
  split
  · rw [List.map_map, List.append_nil]
    refine List.map_congr_left fun old _ => ?_
    rw [Function.comp_apply]
    split
    · rename_i hkey
      exact hkey.symm
    · rfl
  · rw [List.map_append, List.map_singleton]

theorem mem_delete : entry ∈ (archive.delete key).entries ↔
    entry ∈ archive.entries ∧ key ≠ entry.1 := by
  unfold delete
  rw [List.mem_filter, bne_iff_ne, ne_comm]

/-! ## Diagrams under their own ids -/

/-- Every diagram is kept under its own id. -/
def Keyed (archive : Archive K) : Prop := ∀ entry ∈ archive.entries, entry.2.id = entry.1

theorem keyed_empty : Keyed ({} : Archive K) := by
  intro entry hentry
  exact absurd hentry List.not_mem_nil

theorem Keyed.put (h : archive.Keyed) (hkey : d.id = key) : (archive.put key d).Keyed := by
  intro entry hentry
  rcases mem_put.mp hentry with rfl | ⟨hold, -⟩
  · exact hkey
  · exact h entry hold

theorem Keyed.delete (h : archive.Keyed) (key : String) : (archive.delete key).Keyed :=
  fun entry hentry => h entry (mem_delete.mp hentry).1

theorem Keyed.keys_eq (h : archive.Keyed) : archive.keys = archive.diagrams.map Diagram.id := by
  unfold keys diagrams
  rw [List.map_map]
  exact List.map_congr_left fun entry hentry => (h entry hentry).symm

theorem Keyed.entry_of_mem (h : archive.Keyed) (hd : d ∈ archive.diagrams) :
    (d.id, d) ∈ archive.entries := by
  obtain ⟨entry, hentry, rfl⟩ := List.mem_map.mp hd
  rw [h entry hentry]
  exact hentry

theorem Keyed.of_find? (h : archive.Keyed) (hfind : archive.find? id = some d) :
    d ∈ archive.diagrams ∧ d.id = id :=
  ⟨List.mem_map_of_mem (entry_of_find? hfind), h _ (entry_of_find? hfind)⟩

theorem Keyed.find?_of_mem (h : archive.Keyed) (hn : (archive.diagrams.map Diagram.id).Nodup)
    (hd : d ∈ archive.diagrams) : archive.find? d.id = some d :=
  find?_of_entry (h.keys_eq ▸ hn) (h.entry_of_mem hd)

/-- A diagram with a new id goes to the end. -/
theorem Keyed.entries_put_new (h : archive.Keyed) (hnew : d.id ∉ archive.ids) :
    (archive.put d.id d).entries = archive.entries ++ [(d.id, d)] := by
  have hnot : ¬ archive.contains d.id = true := by
    rw [contains_iff, h.keys_eq]
    intro hmem
    obtain ⟨old, hold, hid⟩ := List.mem_map.mp hmem
    exact hnew (mem_ids.mpr ⟨old, hold, hid ▸ List.mem_cons_self ..⟩)
  exact if_neg hnot

/-- A diagram takes the place of the one that is kept under its id. -/
theorem entries_put_old (hn : archive.keys.Nodup) {before after : List (String × Diagram K)}
    (hsplit : archive.entries = before ++ (key, d) :: after) (d' : Diagram K) :
    (archive.put key d').entries = before ++ (key, d') :: after := by
  have hcontains : archive.contains key = true := by
    rw [contains_iff, keys, hsplit]
    simp
  have hkeys : ((before ++ (key, d) :: after).map Prod.fst).Nodup := hsplit ▸ hn
  unfold Archive.put
  dsimp only
  rw [if_pos hcontains, hsplit]
  exact map_replace hkeys (key, d')

end Archive

end ClassAtlas
