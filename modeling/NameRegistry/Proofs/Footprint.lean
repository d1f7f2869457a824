import NameRegistry.Proofs.Uniqueness

/-! # What an assignment touches

An assignment changes the state of exactly the names that it gives a label. A name that
carries a label gets a different one, because the old label is still in use or illegal. Apart
from these entries and from labels that are added at the end of the table, the registry stays
as it is.
-/

namespace NameRegistry

private theorem LabelTable.Grows.isPrefix {table later : LabelTable} (grows : table.Grows later) :
    table.labels.toList <+: later.labels.toList := by
  rw [List.prefix_iff_getElem?]
  intro index inside
  have kept : table.get? ⟨index⟩ = some table.labels.toList[index] := by
    simp [get?, Array.length_toList ▸ inside]
  simpa [get?] using grows ⟨index⟩ _ kept

namespace Registry

/-! ## Names that need a label -/

private theorem ownsLabel_iff {registry : Registry} {name : Name} :
    registry.ownsLabel name = true ↔
      registry.isDerived name = false ∨ registry.isVerbatim name = true := by
  simp [ownsLabel]

private theorem needsLabel_iff {registry : Registry} {used : List Name} {illegal : List Label}
    {name : Name} :
    registry.needsLabel used illegal name = true ↔
      (registry.isDerived name = true ∧ registry.isVerbatim name = false) ∨
      (registry.isDerived name = false ∨ registry.isVerbatim name = true) ∧
        ∃ label, registry.label? name = some label ∧
          (label ∈ illegal ∨
            (∃ fixed, fixed < registry.boundaries.endBuiltins ∧
              registry.label? fixed = some label) ∨
            ∃ earlier ∈ used, earlier < name ∧
              (registry.isDerived earlier = false ∨ registry.isVerbatim earlier = true) ∧
              registry.label? earlier = some label) := by
  have clash := @clashes_iff registry used illegal name
  simp only [mem_fixedLabels, ownsLabel_iff] at clash
  rw [← clash, ← ownsLabel_iff, needsLabel]
  cases owned : registry.ownsLabel name with
  | false => simpa [ownsLabel] using owned
  | true =>
      have notDerived : ¬(registry.isDerived name = true ∧ registry.isVerbatim name = false) := by
        rcases ownsLabel_iff.mp owned with defined | verbatim
        · simp [defined]
        · simp [verbatim]
      simp [notDerived]

/-! ## Entries that change -/

namespace Assigned

variable {registry later : Registry} {used : List Name} {illegal : List Label}
  {changes : List Relabelling} (assigned : Assigned registry used illegal changes later)

include assigned

private theorem state?_changed_iff_target (valid : registry.arena.Valid) {name : Name} :
    later.state? name ≠ registry.state? name ↔ name ∈ registry.targets used illegal := by
  constructor
  · intro changed
    by_contra kept
    exact changed (assigned.kept name kept)
  · intro target same
    -- The label that a used name carries is in use, so none that is chosen is equal to it.
    rcases List.mem_map.mp (assigned.names ▸ target) with ⟨change, present, rfl⟩
    have carried : registry.arena.label? change.name = some change.label :=
      (assigned.relabels.evolves.arenaLabel?_eq valid same).symm.trans
        (assigned.given change present)
    have taken := mem_takenLabels_of_carried (mem_targets.mp target).1 carried
    exact (assigned.chosen.not_mem present).1 taken

end Assigned

/-! ## The guarantee -/

/-- An assignment that succeeds changes the state of a name exactly if the name is used, comes
after the built-ins and needs a label. Of everything else only the label table changes, which
is made longer. -/
theorem state?_changed_iff {dialect : Dialect} {registry later : Registry} {used : List Name}
    {illegal : List Label} {changes : List Relabelling} (reachable : Reachable dialect registry)
    (done : assignLabels used illegal registry = .ok changes later) :
    (∀ name, later.state? name ≠ registry.state? name ↔
      name ∈ used ∧ registry.boundaries.endBuiltins ≤ name ∧
        ((registry.isDerived name = true ∧ registry.isVerbatim name = false) ∨
        (registry.isDerived name = false ∨ registry.isVerbatim name = true) ∧
          ∃ label, registry.label? name = some label ∧
            (label ∈ illegal ∨
              (∃ fixed, fixed < registry.boundaries.endBuiltins ∧
                registry.label? fixed = some label) ∨
              ∃ earlier ∈ used, earlier < name ∧
                (registry.isDerived earlier = false ∨ registry.isVerbatim earlier = true) ∧
                registry.label? earlier = some label))) ∧
    later = { registry with arena := later.arena } ∧
    later.size = registry.size ∧
    registry.arena.labels.labels.toList <+: later.arena.labels.labels.toList := by
  have valid := reachable.sound.2.arena
  have assigned := assigned_of_assignLabels valid done
  have relabels := assigned.relabels
  refine ⟨fun name => ?_, relabels.frame, relabels.size, relabels.labels.isPrefix⟩
  rw [assigned.state?_changed_iff_target valid, mem_targets, needsLabel_iff]

/-- A variable with an illegal label and a used variant of another one are changed, and an
unused variant is not. -/
theorem state?_changed_of_illegal_label :
    ∃ registry changes later, Reachable .evm registry ∧
      assignLabels [⟨37⟩, ⟨38⟩, ⟨39⟩, ⟨41⟩] ["b"] registry = .ok changes later ∧
      later.state? ⟨38⟩ ≠ registry.state? ⟨38⟩ ∧ later.state? ⟨39⟩ ≠ registry.state? ⟨39⟩ ∧
      later.state? ⟨40⟩ = registry.state? ⟨40⟩ ∧ later.size = registry.size := by
  have passed : scenario .evm
      [.intern "a", .intern "b", .derive ⟨37⟩, .derive ⟨37⟩, .verbatim ⟨1, 1⟩]
      [⟨37⟩, ⟨38⟩, ⟨39⟩, ⟨41⟩] ["b"] (fun registry _ _ =>
        decide (registry.boundaries.endBuiltins ≤ ⟨37⟩ ∧ registry.isDerived ⟨38⟩ = false ∧
          registry.label? ⟨38⟩ = some "b" ∧ registry.isDerived ⟨39⟩ = true ∧
          registry.isVerbatim ⟨39⟩ = false)) = true := by
    decide +kernel
  rcases exists_of_scenario passed with ⟨registry, changes, later, reachable, done, tested⟩
  rcases of_decide_eq_true tested with ⟨beyond, defined, labelled, derived, ordinary⟩
  have after {index : Nat} (large : 37 ≤ index) : registry.boundaries.endBuiltins ≤ ⟨index⟩ :=
    Nat.le_trans beyond large
  rcases state?_changed_iff reachable done with ⟨changed, -, size, -⟩
  refine ⟨registry, changes, later, reachable, done, ?_, ?_, ?_, size⟩
  · exact (changed ⟨38⟩).mpr ⟨by decide, after (by decide),
      .inr ⟨.inl defined, "b", labelled, .inl (by decide)⟩⟩
  · exact (changed ⟨39⟩).mpr ⟨by decide, after (by decide), .inl ⟨derived, ordinary⟩⟩
  · by_contra different
    exact absurd ((changed ⟨40⟩).mp different).1 (by decide)

end Registry

end NameRegistry
