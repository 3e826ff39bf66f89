import ClassAtlas.Dialect
import ClassAtlas.Proofs.Assembly.Growth
import ClassAtlas.Proofs.Code.Reading
import ClassAtlas.Proofs.Markup.Reading

/-!
# What every reading hands over

Whatever the text, the dialect and the engine, the diagram that is read has the next ids of the
supply for itself and its elements, in order. Its elements are of known kinds, and its arrows join
elements of the diagram.
-/

namespace ClassAtlas

variable {settings : ReadSettings} {supply : Supply}

open Assembly

/-! ## Growth -/

theorem Dialect.grows_assemble (dialect : Dialect) (settings : ReadSettings) (supply : Supply)
    (text : String) :
    (Assembly.start settings supply).Grows (dialect.assemble settings supply text) := by
  cases dialect with
  | markup => exact Markup.grows_assemble settings supply text
  | code => exact Code.grows_assemble settings supply text

/-- What is read is what was put together, with its boxes moved. -/
theorem Dialect.gives_moved (dialect : Dialect) (engine : Engine Float) (settings : ReadSettings)
    (supply : Supply) (text : String) :
    engine.Gives settings (dialect.assemble settings supply text).Moves
      (dialect.read engine settings supply text) := by
  cases dialect with
  | markup => exact Markup.gives_moved engine settings supply text
  | code => exact Code.gives_moved engine settings supply text

/-! ## Kinds and ends -/

theorem Assembly.Sound.closed {a : Assembly} (h : a.Sound) : a.diagram.Closed := by
  intro e he
  cases e with
  | node n =>
    refine ⟨(h.boxes n he).1, ?_⟩
    intro x hx
    exact absurd hx (by simp [Element.endIds])
  | note t => exact absurd he (h.notes t)
  | arrow r =>
    obtain ⟨hk, ⟨s, hs, hsid⟩, ⟨t, ht, htid⟩⟩ := h.arrows r he
    -- an arrow is no box, so it has another id than the boxes at its ends
    have other : ∀ n, .node n ∈ a.diagram.elements → n.id ∈ a.diagram.ids ∧ n.id ≠ r.id := by
      intro n hn
      refine ⟨List.mem_map_of_mem hn, ?_⟩
      intro heq
      exact absurd (List.inj_on_of_nodup_map h.ids hn he heq) (by simp)
    refine ⟨hk, ?_⟩
    intro x hx
    rcases List.mem_pair.mp hx with rfl | rfl
    · exact hsid ▸ other s hs
    · exact htid ▸ other t ht

/-- Steps that keep an assembly sound do so when they are taken one after the other. -/
theorem Assembly.sound_foldl {α : Type} {f : Assembly → α → Assembly}
    (hf : ∀ a x, Sound a → Sound (f a x)) {a : Assembly} (h : a.Sound) (xs : List α) :
    (xs.foldl f a).Sound := by
  induction xs generalizing a with
  | nil => exact h
  | cons x xs ih => exact ih (hf a x h)

theorem Code.sound_assemble (hid : Function.Injective supply.idAt) (text : String) :
    (Code.assemble settings supply text).Sound := by
  have h0 := sound_start settings hid
  have h1 := sound_declareAll h0 (ne_empty_of_mem_declaredNames "class" text)
    (show NodeKind.isKnown .classBox = true from rfl)
  have h2 := sound_declareAll h1 (ne_empty_of_mem_declaredNames "interface" text)
    (show NodeKind.isKnown .interfaceBox = true from rfl)
  have hknown : ∀ interfaces, ∀ r ∈ relations interfaces text, r.kind.isKnown = true := by
    intro interfaces r hr
    rcases isKnown_of_mem_relations hr with hk | hk <;> rw [hk] <;> rfl
  unfold assemble
  refine sound_foldl ?_ (sound_relateAll h2 (hknown _)) _
  intro a name h
  exact sound_foldl (fun a body h => sound_enrich h name (declaredMembers body)) h _

theorem Dialect.sound_assemble (dialect : Dialect) (settings : ReadSettings)
    (hid : Function.Injective supply.idAt) (text : String) :
    (dialect.assemble settings supply text).Sound := by
  cases dialect with
  | markup => exact Markup.sound_assemble hid text
  | code => exact Code.sound_assemble hid text

/-! ## Ids and times -/

/-- An assembly takes an id for the diagram and one for every element, and reads the clock twice. -/
theorem Assembly.Grows.taken {a : Assembly} (h : (start settings supply).Grows a) :
    a.diagram.allIds = supply.nextIds (a.diagram.elements.length + 1) ∧
      a.supply = (supply.afterIds (a.diagram.elements.length + 1)).afterTime.afterTime ∧
      a.diagram.bare =
        { id := supply.nextId
          name := settings.diagramName
          created := supply.now
          updated := supply.afterTime.now } := by
  -- the first id is for the diagram and is taken at the start, the others are for the elements
  obtain ⟨n, hsupply, hids⟩ := h.added
  have hids' : a.diagram.ids = (supply.afterIds 1).nextIds n := hids
  have hlength : a.diagram.elements.length = n := by
    rw [← List.length_map (f := Element.id), ← Supply.length_nextIds (supply.afterIds 1) n,
      ← hids']
    rfl
  have hid : a.diagram.id = supply.nextId := congrArg Diagram.id h.header
  refine ⟨?_, ?_, h.header⟩
  · unfold Diagram.allIds
    rw [hid, hids', hlength, Nat.add_comm, Supply.nextIds_add, Supply.nextIds_one]
    rfl
  · rw [hlength, Nat.add_comm, ← Supply.afterIds_afterIds]
    exact hsupply

end ClassAtlas
