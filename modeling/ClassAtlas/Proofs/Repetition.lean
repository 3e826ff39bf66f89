/-!
# Lists without repetition

Names count where they stand first, so lists of names are cleared of repetitions again and again.
-/

namespace ClassAtlas

variable {α : Type}

section

variable [DecidableEq α]

/-- Induction along the removal of repetitions: a step removes those of the first element. -/
theorem eraseDups_induction {motive : List α → Prop} (nil : motive [])
    (cons : ∀ x xs, motive (xs.filter fun y => !y == x) → motive (x :: xs)) : ∀ xs, motive xs
  | [] => nil
  | x :: xs => cons x xs (eraseDups_induction nil cons _)
termination_by xs => xs.length
decreasing_by
  have := List.length_filter_le (fun y => !y == x) xs
  rw [List.length_cons]
  omega

theorem nodup_eraseDups (xs : List α) : xs.eraseDups.Nodup := by
  induction xs using eraseDups_induction with
  | nil => simp
  | cons x xs ih =>
    rw [List.eraseDups_cons, List.nodup_cons, List.mem_eraseDups, List.mem_filter]
    exact ⟨by simp, ih⟩

theorem eraseDups_of_nodup {xs : List α} (h : xs.Nodup) : xs.eraseDups = xs := by
  induction xs with
  | nil => rfl
  | cons x xs ih =>
    obtain ⟨hx, hxs⟩ := List.nodup_cons.mp h
    have hkeep : (xs.filter fun y => !y == x) = xs := by
      rw [List.filter_eq_self]
      intro y hy
      have hne : y ≠ x := fun heq => hx (heq ▸ hy)
      simp [hne]
    rw [List.eraseDups_cons, hkeep, ih hxs]

/-- Repetitions of what has been said add nothing. -/
theorem eraseDups_append_of_subset {xs ys : List α} (h : ∀ y ∈ ys, y ∈ xs) :
    (xs ++ ys).eraseDups = xs.eraseDups := by
  have hnone : ys.removeAll xs = [] := by
    unfold List.removeAll
    rw [List.filter_eq_nil_iff]
    intro y hy
    simpa using h y hy
  rw [List.eraseDups_append, hnone]
  simp

/-- What comes last is kept if it has not been said before. -/
theorem eraseDups_concat (xs : List α) (x : α) :
    (xs ++ [x]).eraseDups = xs.eraseDups ++ if x ∈ xs then [] else [x] := by
  rw [List.eraseDups_append]
  by_cases hx : x ∈ xs <;> simp [List.removeAll, hx, List.eraseDups_cons]

/-- Repetitions within a list of what has been said before it add nothing. -/
theorem eraseDups_append_middle {xs ys : List α} (h : ∀ y ∈ ys, y ∈ xs) (zs : List α) :
    (xs ++ (ys ++ zs)).eraseDups = (xs ++ zs).eraseDups := by
  rw [← List.append_assoc, List.eraseDups_append, eraseDups_append_of_subset h,
    List.eraseDups_append]
  unfold List.removeAll
  refine congrArg (fun zs : List α => xs.eraseDups ++ zs.eraseDups) (List.filter_congr ?_)
  intro z _
  by_cases hz : z ∈ xs
  · simp [hz]
  · have hz' : z ∉ ys := fun hy => hz (h z hy)
    simp [hz, hz']

theorem eraseDups_filter (p : α → Bool) (xs : List α) :
    (xs.filter p).eraseDups = xs.eraseDups.filter p := by
  induction xs using eraseDups_induction with
  | nil => simp
  | cons x xs ih =>
    have hcomm : (xs.filter p).filter (fun y => !y == x) =
        (xs.filter fun y => !y == x).filter p := by
      rw [List.filter_filter, List.filter_filter]
      exact List.filter_congr fun y _ => Bool.and_comm ..
    rw [List.eraseDups_cons]
    by_cases hx : p x = true
    · rw [List.filter_cons_of_pos hx, List.filter_cons_of_pos hx, List.eraseDups_cons, hcomm, ih]
    · -- what is dropped together with the first element is not kept anyway
      have hgone : (xs.filter p).filter (fun y => !y == x) = xs.filter p := by
        rw [List.filter_eq_self]
        intro y hy
        have hne : y ≠ x := by
          rintro rfl
          exact hx (List.mem_filter.mp hy).2
        simp [hne]
      rw [List.filter_cons_of_neg hx, List.filter_cons_of_neg hx, ← ih, ← hcomm, hgone]

/-- Repetitions within the parts of a list may be removed first. -/
theorem eraseDups_append_eraseDups (xs ys : List α) :
    (xs.eraseDups ++ ys.eraseDups).eraseDups = (xs ++ ys).eraseDups := by
  have hnew : (ys.eraseDups.removeAll xs.eraseDups).eraseDups = (ys.removeAll xs).eraseDups := by
    unfold List.removeAll
    have hsame : (fun y => !xs.eraseDups.elem y) = fun y => !xs.elem y := by
      funext y
      simp
    rw [hsame, eraseDups_filter, eraseDups_filter, eraseDups_of_nodup (nodup_eraseDups ys)]
  rw [List.eraseDups_append, hnew, eraseDups_of_nodup (nodup_eraseDups xs), ← List.eraseDups_append]

end

/-- A stretch of a list without repetition may be replaced by what it had and what is new. -/
theorem nodup_replace {xs ys ys' zs : List α} (hn : (xs ++ ys ++ zs).Nodup) (hn' : ys'.Nodup)
    (h : ∀ y ∈ ys', y ∈ ys ∨ y ∉ xs ++ ys ++ zs) : (xs ++ ys' ++ zs).Nodup := by
  rw [List.nodup_append, List.nodup_append] at hn
  obtain ⟨⟨hxs, _, hxy⟩, hzs, hyz⟩ := hn
  -- what is exchanged was there before or is new to all of the list
  have apart : ∀ y ∈ ys', y ∉ xs ∧ y ∉ zs := by
    intro y hy
    rcases h y hy with hold | hnew
    · exact ⟨fun hx => hxy y hx y hold rfl,
        fun hz => hyz y (List.mem_append_right _ hold) y hz rfl⟩
    · exact ⟨fun hx => hnew (List.mem_append_left _ (List.mem_append_left _ hx)),
        fun hz => hnew (List.mem_append_right _ hz)⟩
  rw [List.nodup_append, List.nodup_append]
  refine ⟨⟨hxs, hn', ?_⟩, hzs, ?_⟩
  · rintro x hx y hy rfl
    exact (apart x hy).1 hx
  · rintro x hx y hy rfl
    rcases List.mem_append.mp hx with hx | hx
    · exact hyz x (List.mem_append_left _ hx) x hy rfl
    · exact (apart x hx).2 hy

/-- When one element of a list is exchanged for another one, the others stay. -/
theorem mem_exchange {front back : List α} {x y z : α} (h : z ∈ front ++ y :: back) :
    z = y ∨ z ∈ front ++ x :: back := by
  rw [List.mem_append, List.mem_cons] at h ⊢
  rcases h with hfront | rfl | hback
  · exact .inr (.inl hfront)
  · exact .inl rfl
  · exact .inr (.inr (.inr hback))

theorem flatMap_filter {β : Type} (p : α → Bool) (f : α → List β) (xs : List α) :
    (xs.filter p).flatMap f = xs.flatMap fun x => if p x = true then f x else [] := by
  induction xs with
  | nil => rfl
  | cons x xs ih =>
    by_cases hx : p x = true
    · rw [List.filter_cons_of_pos hx, List.flatMap_cons, List.flatMap_cons, ih, if_pos hx]
    · rw [List.filter_cons_of_neg hx, List.flatMap_cons, ih, if_neg hx, List.nil_append]

/-- A function that has a value at one key only picks the one element with that key. -/
theorem filterMap_unique {β κ : Type} {key : α → κ} {f : α → Option β} {xs : List α} {x : α}
    {b : β} (hn : (xs.map key).Nodup) (hx : x ∈ xs) (hf : f x = some b)
    (hother : ∀ y, key y ≠ key x → f y = none) : xs.filterMap f = [b] := by
  induction xs with
  | nil => simp at hx
  | cons y ys ih =>
    obtain ⟨hy, hys⟩ := List.nodup_cons.mp hn
    rcases List.mem_cons.mp hx with rfl | hx
    · -- no other element has this key, so no other one counts
      have hrest : ys.filterMap f = [] := by
        rw [List.filterMap_eq_nil_iff]
        intro z hz
        refine hother z fun heq => hy ?_
        rw [← heq]
        exact List.mem_map_of_mem hz
      rw [List.filterMap_cons_some hf, hrest]
    · have hne : key y ≠ key x := by
        intro heq
        rw [heq] at hy
        exact hy (List.mem_map_of_mem hx)
      rw [List.filterMap_cons_none (hother y hne), ih hys hx]

/-! ## Elements with distinct keys -/

section

variable {κ : Type} [DecidableEq κ] {key : α → κ} {xs front back : List α} {x : α}

omit [DecidableEq κ] in
theorem find?_key_of_mem [BEq κ] [LawfulBEq κ] (hn : (xs.map key).Nodup) (hx : x ∈ xs) :
    xs.find? (fun y => key y == key x) = some x := by
  induction xs with
  | nil => simp at hx
  | cons y ys ih =>
    obtain ⟨hy, hys⟩ := List.nodup_cons.mp hn
    rcases List.mem_cons.mp hx with rfl | hx
    · simp
    · have hne : key y ≠ key x := fun heq => hy (heq ▸ List.mem_map_of_mem hx)
      rw [List.find?_cons_of_neg (by simpa using hne)]
      exact ih hys hx

omit [DecidableEq κ] in
/-- With distinct keys, an element is found by its key from behind as well. -/
theorem find?_key_reverse_of_mem [BEq κ] [LawfulBEq κ] (hn : (xs.map key).Nodup) (hx : x ∈ xs) :
    xs.reverse.find? (fun y => key y == key x) = some x := by
  refine find?_key_of_mem ?_ (List.mem_reverse.mpr hx)
  rw [List.map_reverse, List.Nodup, List.pairwise_reverse]
  exact hn.imp Ne.symm

omit [DecidableEq κ] in
/-- With distinct keys, no element before or behind one has its key. -/
theorem key_ne_of_nodup (hn : ((front ++ x :: back).map key).Nodup) :
    (∀ y ∈ front, key y ≠ key x) ∧ ∀ y ∈ back, key y ≠ key x := by
  rw [List.map_append, List.map_cons, List.nodup_append] at hn
  obtain ⟨_, hback, hdisjoint⟩ := hn
  refine ⟨?_, ?_⟩
  · intro y hy
    exact hdisjoint _ (List.mem_map_of_mem hy) _ (List.mem_cons_self ..)
  · intro y hy heq
    exact (List.nodup_cons.mp hback).1 (heq ▸ List.mem_map_of_mem hy)

/-- Dropping what has a certain key drops one element. -/
theorem filter_key_ne (hn : ((front ++ x :: back).map key).Nodup) :
    ((front ++ x :: back).filter fun y => key y != key x) = front ++ back := by
  obtain ⟨hfront, hback⟩ := key_ne_of_nodup hn
  have keep : ∀ zs : List α, (∀ z ∈ zs, key z ≠ key x) →
      (zs.filter fun z => key z != key x) = zs := by
    intro zs hzs
    rw [List.filter_eq_self]
    exact fun z hz => by simpa using hzs z hz
  rw [List.filter_append, List.filter_cons_of_neg (by simp), keep front hfront, keep back hback]

/-- Replacing what has a certain key replaces one element. -/
theorem map_replace (hn : ((front ++ x :: back).map key).Nodup) (y : α) :
    ((front ++ x :: back).map fun z => if key z = key x then y else z) = front ++ y :: back := by
  obtain ⟨hfront, hback⟩ := key_ne_of_nodup hn
  have same : ∀ zs : List α, (∀ z ∈ zs, key z ≠ key x) →
      (zs.map fun z => if key z = key x then y else z) = zs := by
    intro zs hzs
    rw [List.map_congr_left fun z hz => if_neg (hzs z hz), List.map_id']
  rw [List.map_append, List.map_cons, if_pos rfl, same front hfront, same back hback]

end

end ClassAtlas
