import ClassAtlas.Editor.Changes
import ClassAtlas.Proofs.Diagram.Ends

/-!
# What changes leave as it is

Every change of a field keeps the id of an element and its ends, and a new kind is a known one. A
change that is refused says that the kind cannot be changed so or that the field is missing.
-/

namespace ClassAtlas

variable {K : Type}

/-- Whether a failure is one that editors give for what they are asked. Ids never clash, options are
not asked for by key, and what cannot be drawn is for the engine to say. -/
def Failure.isOfEditor : Failure → Bool
  | .duplicateElement .. | .unknownOption _ | .layoutFailed .. => false
  | _ => true

namespace Element

/-- A change gives an element that may stand for the old one, or a reason why it does not. -/
structure Careful (set : Element K → Except Failure (Element K)) : Prop where
  ok : ∀ {e e'}, set e = .ok e' → e'.Replaces e
  error : ∀ {e failure}, set e = .error failure → failure.isOfEditor = true

theorem careful_ok : Careful (.ok : Element K → _) where
  ok := by
    intro e e' h
    cases h
    exact .refl e
  error := by
    intro e failure h
    cases h

theorem Careful.bind {f g : Element K → Except Failure (Element K)} (hf : Careful f)
    (hg : Careful g) : Careful fun e => f e >>= g where
  ok := by
    intro e e'' h
    cases he : f e with
    | error failure =>
      rw [he] at h
      cases h
    | ok e' =>
      rw [he] at h
      exact (hg.ok h).trans (hf.ok he)
  error := by
    intro e failure h
    cases he : f e with
    | error failure' =>
      rw [he] at h
      cases h
      exact hf.error he
    | ok e' =>
      rw [he] at h
      exact hg.error h

theorem Careful.setIf {α : Type} {set : α → Element K → Except Failure (Element K)}
    (h : ∀ a, Careful (set a)) (value : Option α) : Careful (Element.setIf value set) := by
  cases value with
  | none => exact careful_ok
  | some a => exact h a

theorem careful_setKind (word : String) : Careful (setKind word : Element K → _) where
  ok := by
    intro e e' h
    unfold setKind at h
    cases e with
    | note t => cases h
    | node n =>
      dsimp only at h
      split at h
      · rename_i hk
        cases h
        -- the new kind is a known one, or it would have been refused
        exact ⟨rfl, rfl, fun _ => (Bool.and_eq_true_iff.mp hk).2⟩
      · cases h
    | arrow a =>
      dsimp only at h
      split at h
      · rename_i hk
        cases h
        exact ⟨rfl, rfl, fun _ => hk⟩
      · cases h
  error := by
    intro e failure h
    unfold setKind at h
    cases e with
    | note t =>
      cases h
      rfl
    | node n =>
      dsimp only at h
      split at h <;> cases h
      rfl
    | arrow a =>
      dsimp only at h
      split at h <;> cases h
      rfl

/-- A field that some types of elements have and that is none of id, kind and ends. -/
theorem careful_field {set : Element K → Except Failure (Element K)}
    (h : ∀ e, (∃ e', set e = .ok e' ∧ e'.id = e.id ∧ e'.endIds = e.endIds ∧
      e'.isKnown = e.isKnown) ∨ ∃ kind field, set e = .error (.fieldMissing kind field)) :
    Careful set where
  ok := by
    intro e e' heq
    -- a field that an element has is changed, and any other is reported as missing
    rcases h e with ⟨x, hx, hid, hends, hknown⟩ | ⟨kind, field, hx⟩
    · rw [hx] at heq
      cases heq
      exact ⟨hid, hends, fun hk => hknown.trans hk⟩
    · rw [hx] at heq
      cases heq
  error := by
    intro e failure heq
    rcases h e with ⟨x, hx, _⟩ | ⟨kind, field, hx⟩
    · rw [hx] at heq
      cases heq
    · rw [hx] at heq
      cases heq
      rfl

theorem careful_setSize (size : Option (Size K)) : Careful (setSize size) := by
  refine careful_field fun e => ?_
  cases e with
  | node n => exact .inl ⟨_, rfl, rfl, rfl, rfl⟩
  | arrow a => exact .inr ⟨_, _, rfl⟩
  | note t => exact .inr ⟨_, _, rfl⟩

theorem careful_setText (text : Option String) : Careful (setText text : Element K → _) := by
  refine careful_field fun e => ?_
  cases e with
  | node n => exact .inl ⟨_, rfl, rfl, rfl, rfl⟩
  | arrow a => exact .inr ⟨_, _, rfl⟩
  | note t => exact .inl ⟨_, rfl, rfl, rfl, rfl⟩

theorem careful_setMembers (members : Option Members) :
    Careful (setMembers members : Element K → _) := by
  refine careful_field fun e => ?_
  cases e with
  | node n => exact .inl ⟨_, rfl, rfl, rfl, rfl⟩
  | arrow a => exact .inr ⟨_, _, rfl⟩
  | note t => exact .inr ⟨_, _, rfl⟩

theorem careful_setPosition (position : Option (Point K)) : Careful (setPosition position) := by
  refine careful_field fun e => ?_
  cases e with
  | node n => exact .inl ⟨_, rfl, rfl, rfl, rfl⟩
  | arrow a => exact .inr ⟨_, _, rfl⟩
  | note t => exact .inl ⟨_, rfl, rfl, rfl, rfl⟩

theorem careful_setPoints (points : Option (List (Point K))) : Careful (setPoints points) := by
  refine careful_field fun e => ?_
  cases e with
  | node n => exact .inr ⟨_, _, rfl⟩
  | arrow a => exact .inl ⟨_, rfl, rfl, rfl, rfl⟩
  | note t => exact .inr ⟨_, _, rfl⟩

end Element

open Element in
/-- **Changes keep ids and ends, and kinds known.** -/
theorem Changes.careful_apply (c : Changes K) : Careful c.apply :=
  (Careful.setIf careful_setKind c.newKind).bind <|
    (Careful.setIf careful_setSize c.size).bind <|
    (Careful.setIf careful_setText c.text).bind <|
    (Careful.setIf careful_setMembers c.members).bind <|
    (Careful.setIf careful_setPosition c.position).bind <|
    Careful.setIf careful_setPoints c.points

theorem Changes.ofNamed_eq_ok_iff {v : NamedValues K} {c : Changes K} :
    Changes.ofNamed v = .ok c ↔ v.unknown = [] ∧ v.changes = c := by
  unfold ofNamed
  split
  · rename_i hknown
    exact ⟨fun h => ⟨hknown, Except.ok.inj h⟩, fun h => congrArg _ h.2⟩
  · rename_i hunknown
    exact ⟨nofun, fun h => absurd h.1 hunknown⟩

theorem Changes.isOfEditor_of_ofNamed {v : NamedValues K} {failure : Failure}
    (h : Changes.ofNamed v = .error failure) : failure.isOfEditor = true := by
  unfold ofNamed at h
  split at h
  · cases h
  · cases h
    rfl

end ClassAtlas
