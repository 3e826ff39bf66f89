import ClassAtlas.Supply
import Mathlib.Data.List.Nodup
import Mathlib.Data.List.Range

/-!
# What a supply has given away

A supply counts the ids that have been taken. If its ids differ, the ids that come next are none of
those that were taken before.
-/

namespace ClassAtlas

namespace Supply

/-- The next ids. -/
def nextIds (s : Supply) (n : Nat) : List String :=
  (List.range n).map fun i => s.idAt (s.idsTaken + i)

/-- The supply after some ids have been taken. -/
def afterIds (s : Supply) (n : Nat) : Supply := { s with idsTaken := s.idsTaken + n }

/-- The supply after the clock has been read some times. -/
def afterTimes (s : Supply) (n : Nat) : Supply := { s with timesRead := s.timesRead + n }

/-- The clock never shows a time twice and never goes back. -/
def GoesForward (s : Supply) : Prop := ∀ ⦃i j⦄, i < j → s.timeAt i < s.timeAt j

/-- An id has been taken. -/
def Taken (s : Supply) (id : String) : Prop := ∃ k < s.idsTaken, id = s.idAt k

variable {s : Supply} {id : String}

theorem nextIds_zero (s : Supply) : s.nextIds 0 = [] := rfl

theorem nextIds_one (s : Supply) : s.nextIds 1 = [s.nextId] := rfl

theorem length_nextIds (s : Supply) (n : Nat) : (s.nextIds n).length = n := by
  unfold nextIds
  rw [List.length_map, List.length_range]

theorem afterIds_afterIds (s : Supply) (m n : Nat) :
    (s.afterIds m).afterIds n = s.afterIds (m + n) := by
  unfold afterIds
  rw [Nat.add_assoc]

theorem nextIds_add (s : Supply) (m n : Nat) :
    s.nextIds (m + n) = s.nextIds m ++ (s.afterIds m).nextIds n := by
  unfold nextIds afterIds
  rw [List.range_add, List.map_append, List.map_map]
  refine congrArg (_ ++ ·) (List.map_congr_left ?_)
  intro i _
  rw [Function.comp_apply, Nat.add_assoc]

theorem nodup_nextIds (hid : Function.Injective s.idAt) (n : Nat) : (s.nextIds n).Nodup := by
  refine List.nodup_range.map ?_
  intro i j heq
  exact Nat.add_left_cancel (hid heq)

theorem Taken.afterIds (h : s.Taken id) (n : Nat) : (s.afterIds n).Taken id := by
  obtain ⟨k, hk, heq⟩ := h
  exact ⟨k, Nat.lt_add_right n hk, heq⟩

theorem taken_of_mem_nextIds {n : Nat} (h : id ∈ s.nextIds n) : (s.afterIds n).Taken id := by
  obtain ⟨i, hi, rfl⟩ := List.mem_map.mp h
  exact ⟨s.idsTaken + i, Nat.add_lt_add_left (List.mem_range.mp hi) _, rfl⟩

theorem not_taken_of_mem_nextIds (hid : Function.Injective s.idAt) {n : Nat}
    (h : id ∈ s.nextIds n) : ¬ s.Taken id := by
  obtain ⟨i, _, rfl⟩ := List.mem_map.mp h
  rintro ⟨k, hk, heq⟩
  have := hid heq
  omega

theorem not_taken_nextId (hid : Function.Injective s.idAt) : ¬ s.Taken s.nextId :=
  not_taken_of_mem_nextIds hid (nextIds_one s ▸ List.mem_cons_self ..)

end Supply

end ClassAtlas
