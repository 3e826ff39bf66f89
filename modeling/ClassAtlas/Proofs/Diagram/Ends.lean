import ClassAtlas.Proofs.Archive
import ClassAtlas.Proofs.Diagram.Sketch

/-!
# Ids, kinds and ends of elements

What an edit or a layout has to leave as it is: the id of an element, its ends if it is an arrow,
and that its kind is one of those for elements of its type.
-/

namespace ClassAtlas

variable {K : Type}

namespace Element

/-- The ids at the ends of an arrow, its source first. Other elements have no ends. -/
def endIds : Element K → List String
  | .arrow a => [a.source, a.target]
  | _ => []

/-- Whether an element is of a kind that the library knows. -/
def isKnown : Element K → Bool
  | .node n => n.kind.isKnown
  | .arrow a => a.kind.isKnown
  | .note t => t.kind == "text"

/-- The words for the kinds that elements of a type have. -/
def kindWords : Element K → List String
  | .node _ => ["class", "interface"]
  | .arrow _ => ["inheritance", "implementation", "dependency", "association"]
  | .note _ => ["text"]

/-- The ends of an element are among some ids, and it is not an end of itself. -/
def Joins (e : Element K) (ids : List String) : Prop := ∀ x ∈ e.endIds, x ∈ ids ∧ x ≠ e.id

/-- An element may stand for another one: it has the same id and the same ends, and its kind is
known if that of the other is. -/
structure Replaces (new old : Element K) : Prop where
  id_eq : new.id = old.id
  endIds_eq : new.endIds = old.endIds
  isKnown : old.isKnown = true → new.isKnown = true

variable {e e' e'' : Element K}

theorem Replaces.refl (e : Element K) : e.Replaces e := ⟨rfl, rfl, fun h => h⟩

theorem Replaces.trans (h : e''.Replaces e') (h' : e'.Replaces e) : e''.Replaces e where
  id_eq := h.id_eq.trans h'.id_eq
  endIds_eq := h.endIds_eq.trans h'.endIds_eq
  isKnown := fun hk => h.isKnown (h'.isKnown hk)

/-- A known kind is called by one of the words for its type. -/
theorem kindWord_mem (h : e.isKnown = true) : e.kindWord ∈ e.kindWords := by
  cases e with
  | node n =>
    rcases n with ⟨_, kind⟩
    cases kind <;> simp_all [kindWord, kindWords, NodeKind.word, isKnown, NodeKind.isKnown]
  | arrow a =>
    rcases a with ⟨_, kind⟩
    cases kind <;> simp_all [kindWord, kindWords, ArrowKind.word, isKnown, ArrowKind.isKnown]
  | note t => exact List.mem_singleton.mpr (eq_of_beq h)

end Element

variable {d d' : Diagram K}

/-- A diagram without its elements: its id, its name and its times. -/
def Diagram.bare (d : Diagram K) : Diagram K := { d with elements := [] }

theorem Diagram.eq_of_bare (hbare : d.bare = d'.bare) (helements : d.elements = d'.elements) :
    d = d' := by
  cases d
  cases d'
  simp only [Diagram.bare, Diagram.mk.injEq, true_and] at *
  obtain ⟨rfl, rfl, rfl, rfl⟩ := hbare
  subst helements
  simp

/-- Elements are of known kinds, and arrows join other elements of the diagram. -/
def Diagram.Closed (d : Diagram K) : Prop := ∀ e ∈ d.elements, e.isKnown = true ∧ e.Joins d.ids

theorem Diagram.ids_unplaced (d : Diagram K) : d.unplaced.ids = d.ids := by
  unfold Diagram.ids Diagram.unplaced
  rw [List.map_map]
  exact List.map_congr_left fun e _ => unplaced_id e

/-! ## Ends that find nothing -/

/-- An arrow does not resolve if one of its ends finds no box. -/
theorem Diagram.ends?_of_node?_none {a : Arrow K} {x : String} (hx : x ∈ [a.source, a.target])
    (hnone : d.node? x = none) : d.ends? a = none := by
  unfold ends?
  rcases List.mem_pair.mp hx with rfl | rfl
  · rw [hnone]
    rfl
  · rw [hnone]
    cases d.node? a.source <;> rfl

theorem Diagram.node?_eq_none {x : String} (hnot : x ∉ d.ids) : d.node? x = none := by
  have hfind : d.find? x = none := by
    unfold find?
    rw [List.find?_eq_none]
    intro e he hid
    exact hnot (List.mem_map.mpr ⟨e, he, by simpa using hid⟩)
  unfold node?
  rw [hfind, Option.bind_none]

/-- An arrow without one of its ends does not resolve. -/
theorem Diagram.ends?_eq_none {a : Arrow K} {x : String} (hx : x ∈ [a.source, a.target])
    (hnot : x ∉ d.ids) : d.ends? a = none :=
  ends?_of_node?_none hx (node?_eq_none hnot)

/-! ## Adding elements one by one -/

/-- The diagram with some elements added one after the other, each under a new id. -/
def Diagram.insertAll (d : Diagram K) (es : List (Element K)) : Except Failure (Diagram K) :=
  es.foldlM Diagram.insert d

/-- The elements of a diagram could be added to it one after the other. -/
def Diagram.Addable (d : Diagram K) : Prop := d.bare.insertAll d.elements = .ok d

theorem Diagram.insert_of_not_mem {e : Element K} (h : e.id ∉ d.ids) :
    d.insert e = .ok { d with elements := d.elements ++ [e] } := by
  have hnone : ¬ (d.find? e.id).isSome = true := by
    unfold Diagram.find?
    rw [List.find?_isSome]
    rintro ⟨x, hx, hid⟩
    exact h (List.mem_map.mpr ⟨x, hx, by simpa using hid⟩)
  exact if_neg hnone

/-- Elements with distinct new ids can all be added. -/
theorem Diagram.insertAll_eq_ok {es : List (Element K)}
    (h : (d.ids ++ es.map Element.id).Nodup) :
    d.insertAll es = .ok { d with elements := d.elements ++ es } := by
  unfold insertAll
  induction es generalizing d with
  | nil => simp [pure, Except.pure]
  | cons e es ih =>
    have hnot : e.id ∉ d.ids := by
      rw [List.map_cons, List.nodup_append] at h
      intro hmem
      exact h.2.2 _ hmem _ (List.mem_cons_self ..) rfl
    -- the element just added moves from the list still to come to those that are there
    have hids : Diagram.ids { d with elements := d.elements ++ [e] } ++ es.map Element.id =
        d.ids ++ (e :: es).map Element.id := by
      simp [Diagram.ids]
    rw [List.foldlM_cons, insert_of_not_mem hnot]
    show es.foldlM Diagram.insert { d with elements := d.elements ++ [e] } = _
    rw [ih (hids ▸ h), List.append_assoc]
    rfl

theorem Diagram.addable_of_nodup (hn : d.allIds.Nodup) : d.Addable :=
  insertAll_eq_ok (d := d.bare) (List.nodup_cons.mp hn).2

end ClassAtlas
