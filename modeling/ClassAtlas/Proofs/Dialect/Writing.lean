import ClassAtlas.Dialect
import ClassAtlas.Proofs.Code.RoundTrip
import ClassAtlas.Proofs.Diagram.Selection
import ClassAtlas.Proofs.Markup.Writing

/-!
# What the written forms depend on

Both dialects write the boxes that have labels and the relations between them, and nothing else. So
an arrow that has lost an end may stay in a diagram: nobody can tell from a text whether it is still
there.
-/

namespace ClassAtlas

variable {K : Type} {d d' : Diagram K}

/-- What is written is told by the boxes that have labels and the relations between them. -/
theorem Dialect.write_congr (dialect : Dialect) (hboxes : d.labelledNodes = d'.labelledNodes)
    (hrelations : d.relations = d'.relations) : dialect.write d = dialect.write d' := by
  cases dialect with
  | markup =>
    -- the lines of an arrow depend on its relation only
    have hlines (d : Diagram K) : Markup.lines d = ["classDiagram"] ++
        d.labelledNodes.flatMap Markup.nodeLines ++ d.relations.map Markup.relationLine := by
      unfold Markup.lines
      rw [Markup.arrowLines_eq]
      rfl
    show Markup.write d = Markup.write d'
    unfold Markup.write
    rw [hlines, hlines, hboxes, hrelations]
  | code =>
    refine Code.write_congr ?_ ?_ ?_
    · rw [Code.boxes_eq, Code.boxes_eq, hboxes]
    · intro b _ _
      rw [hrelations]
    · rw [hrelations]

/-- **Arrows that have lost an end.** Leaving them all out does not change what is written. So after
an element was removed the text is the same as if the arrows at it had been removed with it,
whatever the element was and whichever parent or interface of a class is the first one now. Ids have
to be distinct: behind an element that is left out another one with its id would come to light. -/
theorem lost_arrows_leave_no_trace (dialect : Dialect) (d : Diagram K) (hn : d.ids.Nodup) :
    dialect.write d.withoutDangling = dialect.write d ∧
      ∀ id, dialect.write (d.erase id) = dialect.write (d.eraseWithArrows id) := by
  refine ⟨?_, ?_⟩
  · obtain ⟨hboxes, hrelations⟩ := withoutDangling_shows hn
    exact dialect.write_congr hboxes hrelations
  · intro id
    obtain ⟨hboxes, hrelations⟩ := eraseWithArrows_shows hn id
    exact (dialect.write_congr hboxes hrelations).symm

/-- Without `Animal` the class `Dog` has its second parent, and the association is gone. -/
theorem lost_arrows_leave_no_trace_kennel :
    Code.kennel.ids.Nodup ∧
      (Code.kennel.eraseWithArrows "4").ids = ["1", "2", "3", "5", "6", "8", "9", "10", "12"] ∧
      Code.write (Code.kennel.erase "4") = Code.write (Code.kennel.eraseWithArrows "4") ∧
      Code.bases (Code.kennel.erase "4") "Dog" = ["Dog", "IPet", "IWalker"] ∧
      Markup.write Code.kennel.withoutDangling = Markup.write Code.kennel :=
  have hn : Code.kennel.ids.Nodup := by decide
  ⟨hn, by decide, (lost_arrows_leave_no_trace .code Code.kennel hn).2 "4", by decide,
    (lost_arrows_leave_no_trace .markup Code.kennel hn).1⟩

end ClassAtlas
