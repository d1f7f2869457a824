import NameRegistry.Proofs.Separation

/-! # What an assignment leaves of the built-ins

The built-ins of the range are never touched. A verbatim built-in is like any other
used name: it loses its label, and with it what makes it a built-in, if the label has
become illegal.
-/

namespace NameRegistry.Registry

/-- A name is labelled, classified and recorded as before. -/
structure Unaltered (registry later : Registry) (name : Name) : Prop where
  label : later.label? name = registry.label? name
  isBuiltin : later.isBuiltin name = registry.isBuiltin name
  isVerbatim : later.isVerbatim name = registry.isVerbatim name
  record : later.builtin? name = registry.builtin? name

private theorem ownsLabel_of_label? {registry : Registry} {name : Name} {label : Label}
    (labelled : registry.label? name = some label) : registry.ownsLabel name = true := by
  unfold label? at labelled
  split at labelled
  · next text carried =>
      rcases Arena.label?_eq_some_iff.mp carried with ⟨position, defined, -⟩
      simp [ownsLabel, isDerived, state?, defined]
  · split at labelled
    · next verbatim => simp [ownsLabel, verbatim]
    · exact absurd labelled (by simp)

/-! ## Labels of verbatim built-ins -/

private theorem Made.ownsLabel {registry : Registry} {arity : Arity} {name : Name}
    (made : registry.Made arity name) : registry.ownsLabel name = true := by
  rcases made.state with verbatim | ⟨label, carried, -⟩
  · simp [Registry.ownsLabel, verbatim]
  · have labelled : registry.label? name = some label := by
      simp only [label?, carried]
    exact ownsLabel_of_label? labelled

private theorem Made.not_clashes_of_relabelled {registry : Registry} {arity : Arity} {name : Name}
    (made : registry.Made arity name) (relabelled : registry.isVerbatim name = false)
    {used : List Name} {illegal : List Label} {label : Label}
    (labelled : registry.label? name = some label) (legal : label ∉ illegal)
    (free : ∀ other ∈ used, other < name → registry.label? other ≠ some label) :
    registry.clashes used illegal name = false := by
  rcases made.state with verbatim | ⟨carried, known, notFixed⟩
  · exact absurd (verbatim.symm.trans relabelled) (by simp)
  · have same : label = carried := by
      simpa [label?, known] using labelled.symm
    cases clashed : registry.clashes used illegal name with
    | false => rfl
    | true =>
        rcases clashes_iff.mp clashed with ⟨text, again, reason⟩
        cases labelled.symm.trans again
        rcases reason with bad | fixed | ⟨earlier, member, less, -, clash⟩
        · exact absurd bad legal
        · exact absurd (same ▸ fixed) notFixed
        · exact absurd clash (free earlier member less)

namespace Separated

variable {registry : Registry} (separated : registry.Separated) (sound : registry.Sound)
  (wellFormed : registry.dialect.WellFormed)

include separated

private theorem instance_of_label? (wellFormed : registry.dialect.WellFormed) {label : Label}
    {definition : Builtin} (found : registry.dialect.builtin? label = some definition)
    (verbatim : definition.isVerbatim = true) {name : Name}
    (labelled : registry.label? name = some label) :
    (definition.arity, name) ∈ registry.instances := by
  unfold label? at labelled
  split at labelled
  · next text carried =>
      cases labelled
      have ordinary := separated.carried name label carried definition found
      exact absurd (verbatim.symm.trans ordinary) (by simp)
  · split at labelled
    · rcases Option.map_eq_some_iff.mp labelled with ⟨record, known, rfl⟩
      have recordVerbatim : record.definition.isVerbatim = true := by
        rw [Builtin.isVerbatim, wellFormed.named _ definition found] at verbatim
        exact verbatim
      have member := separated.recorded name record known recordVerbatim
      rcases (separated.made _ name member).recorded with ⟨other, otherKnown, -, -, otherFound⟩
      cases known.symm.trans otherKnown
      cases found.symm.trans otherFound
      exact member
    · exact absurd labelled (by simp)

include sound

omit separated in
theorem label?_of_made {arity : Arity} {name : Name} (made : registry.Made arity name)
    (verbatim : registry.isVerbatim name = true) :
    ∃ definition, registry.label? name = some definition.name ∧
      definition.isVerbatim = true ∧ definition.arity = arity ∧
      registry.dialect.builtin? definition.name = some definition := by
  have unlabelled : registry.arena.label? name = none := by
    cases carried : registry.arena.label? name with
    | none => rfl
    | some label =>
        rcases Arena.label?_eq_some_iff.mp carried with ⟨position, defined, -⟩
        have itself : registry.base? name = some name := Arena.base?_of_defined defined
        have same : name = registry.predefined.verbatim := by
          simpa [isVerbatim, itself] using verbatim
        exact absurd (same ▸ sound.base) (not_lt.mpr made.beyond)
  rcases made.recorded with ⟨record, known, recordVerbatim, sameArity, found⟩
  exact ⟨record.definition, by simp [label?, unlabelled, verbatim, known], recordVerbatim,
    sameArity, found⟩

include wellFormed

theorem label?_of_instance {arity : Arity} {name : Name}
    (member : (arity, name) ∈ registry.instances) (verbatim : registry.isVerbatim name = true) :
    registry.label? name = some (Verbatim.label arity) := by
  rcases label?_of_made sound (separated.made arity name member) verbatim with
    ⟨definition, labelled, isVerbatim, rfl, found⟩
  have read := (wellFormed.isVerbatim_iff found).mp isVerbatim
  rw [labelled, Verbatim.label_of_ofLabel? read]

theorem not_clashes_of_instance {arity : Arity} {name : Name}
    (member : (arity, name) ∈ registry.instances) (verbatim : registry.isVerbatim name = true)
    {used : List Name} {illegal : List Label} {label : Label}
    (labelled : registry.label? name = some label) (legal : label ∉ illegal) :
    registry.clashes used illegal name = false := by
  have made := separated.made arity name member
  rcases label?_of_made sound made verbatim with
    ⟨definition, known, isVerbatim, rfl, found⟩
  cases labelled.symm.trans known
  have alone {other : Name} (same : registry.label? other = some definition.name) :
      other = name :=
    separated.unique _ other name (separated.instance_of_label? wellFormed found isVerbatim same)
      member
  cases clashed : registry.clashes used illegal name with
  | false => rfl
  | true =>
      rcases clashes_iff.mp clashed with ⟨text, again, reason⟩
      cases labelled.symm.trans again
      rcases reason with bad | fixed | ⟨earlier, -, less, -, same⟩
      · exact absurd bad legal
      · rcases mem_fixedLabels.mp fixed with ⟨other, less, same⟩
        exact absurd (alone same ▸ less) (not_lt.mpr made.beyond)
      · exact absurd (alone same ▸ less) (lt_irrefl name)

end Separated

/-! ## Names that are left alone -/

namespace Assigned

variable {registry later : Registry} {used : List Name} {illegal : List Label}
  {changes : List Relabelling} (assigned : Assigned registry used illegal changes later)
  (sound : registry.Sound)

include assigned sound

private theorem unaltered {name : Name} (inside : registry.contains name = true)
    (kept : name ∉ registry.targets used illegal) : registry.Unaltered later name :=
  have evolves := assigned.relabels.evolves
  have state := assigned.kept name kept
  { label := assigned.label?_kept sound inside kept
    isBuiltin := evolves.isBuiltin_eq sound.arena assigned.relabels.arena state
    isVerbatim := evolves.isVerbatim_eq sound.arena assigned.relabels.arena state
    record := evolves.builtin? name inside }

omit sound in
private theorem label?_changed {name : Name} (target : name ∈ registry.targets used illegal)
    {label : Label} (labelled : registry.label? name = some label) :
    later.label? name ≠ some label := by
  rcases assigned.exists_change target with ⟨change, present, rfl⟩
  rw [assigned.label?_given present]
  intro same
  exact assigned.kept_label_ne (mem_targets.mp target).1 (ownsLabel_of_label? labelled) labelled
    present (Option.some.inj same)

private theorem unaltered_iff {name : Name} (inside : registry.contains name = true)
    (owned : registry.ownsLabel name = true) :
    registry.Unaltered later name ↔ name ∉ registry.targets used illegal := by
  constructor
  · intro unaltered target
    rcases assigned.labelled name (mem_targets.mp target).1 owned with ⟨label, labelled⟩
    exact assigned.label?_changed target labelled (unaltered.label.trans labelled)
  · exact assigned.unaltered sound inside

private theorem instance_not_target_iff (separated : registry.Separated)
    (wellFormed : registry.dialect.WellFormed) {arity : Arity} {name : Name}
    (recorded : (arity, name) ∈ registry.instances) (member : name ∈ used) :
    name ∉ registry.targets used illegal ↔
      ∃ label, registry.label? name = some label ∧ label ∉ illegal ∧
        (registry.isVerbatim name = true ∨
          ∀ other ∈ used, other < name → registry.label? other ≠ some label) := by
  have made := separated.made arity name recorded
  constructor
  · intro kept
    rcases assigned.labelled name member made.ownsLabel with ⟨label, labelled⟩
    have fits := (not_needed_of_not_target member made.beyond kept).2
    rcases clashes_eq_false fits labelled with ⟨legal, -, free⟩
    exact ⟨label, labelled, legal, .inr fun other present less same =>
      free other present less (ownsLabel_of_label? same) same⟩
  · intro fit target
    rcases fit with ⟨label, labelled, legal, reason⟩
    have needs := (mem_targets.mp target).2.2
    rw [needsLabel, made.ownsLabel, Bool.not_true, Bool.false_or] at needs
    have fits : registry.clashes used illegal name = false := by
      cases verbatim : registry.isVerbatim name with
      | true =>
          exact separated.not_clashes_of_instance sound wellFormed recorded verbatim labelled legal
      | false =>
          rcases reason with intact | free
          · exact absurd (verbatim.symm.trans intact) (by simp)
          · exact made.not_clashes_of_relabelled verbatim labelled legal free
    exact absurd (needs.symm.trans fits) (by simp)

end Assigned

/-! ## The guarantee -/

/-- A built-in is left alone exactly if it is not used, or it belongs to the range, or its
label is legal and, unless it still goes back to the verbatim base, no smaller used name
has the label. In the first state it has the label of its arity. -/
theorem builtin_unaltered_iff {dialect : Dialect} {registry later : Registry}
    {used : List Name} {illegal : List Label} {changes : List Relabelling} {name : Name}
    (wellFormed : dialect.WellFormed) (reachable : Reachable dialect registry)
    (done : assignLabels used illegal registry = .ok changes later)
    (builtin : registry.boundaries.containsBuiltin name = true ∨
      ∃ arity, (arity, name) ∈ registry.instances) :
    (registry.Unaltered later name ↔
      name ∉ used ∨ name < registry.boundaries.endBuiltins ∨
        ∃ label, registry.label? name = some label ∧ label ∉ illegal ∧
          (registry.isVerbatim name = true ∨
            ∀ other ∈ used, other < name → registry.label? other ≠ some label)) ∧
    ∀ arity, (arity, name) ∈ registry.instances → registry.isVerbatim name = true →
      registry.label? name = some (Verbatim.label arity) := by
  have separated := reachable.separated wellFormed
  rcases reachable.sound with ⟨rfl, sound⟩
  have assigned := assigned_of_assignLabels sound.arena done
  refine ⟨?_, fun arity member => separated.label?_of_instance sound wellFormed member⟩
  rcases builtin with range | ⟨arity, recorded⟩
  · simp only [Boundaries.containsBuiltin, decide_eq_true_eq] at range
    have inside := sound.contains_of_lt range.2
    have kept : name ∉ registry.targets used illegal := fun target =>
      absurd range.2 (not_lt.mpr (mem_targets.mp target).2.1)
    exact ⟨fun _ => .inr (.inl range.2), fun _ => assigned.unaltered sound inside kept⟩
  · have made := separated.made arity name recorded
    rw [assigned.unaltered_iff sound (sound.instances arity name recorded) made.ownsLabel]
    by_cases member : name ∈ used
    · rw [assigned.instance_not_target_iff sound separated wellFormed recorded member]
      have notFixed : ¬name < registry.boundaries.endBuiltins := not_lt.mpr made.beyond
      simp only [member, not_true, notFixed, false_or]
    · exact ⟨fun _ => .inl member, fun _ target => member (mem_targets.mp target).1⟩

/-- Of two verbatim built-ins the one whose label has become illegal is altered. -/
theorem builtin_altered_of_illegal_label :
    ∃ registry changes later, Reachable .evm registry ∧
      assignLabels [⟨37⟩, ⟨38⟩] ["verbatim_1i_1o"] registry = .ok changes later ∧
      (⟨1, 1⟩, ⟨37⟩) ∈ registry.instances ∧ ¬registry.Unaltered later ⟨37⟩ ∧
      registry.Unaltered later ⟨38⟩ ∧ later.label? ⟨38⟩ = some (Verbatim.label ⟨2, 1⟩) := by
  have passed : scenario .evm [.verbatim ⟨1, 1⟩, .verbatim ⟨2, 1⟩] [⟨37⟩, ⟨38⟩]
      ["verbatim_1i_1o"] (fun registry _ _ =>
        decide ((⟨1, 1⟩, ⟨37⟩) ∈ registry.instances ∧ (⟨2, 1⟩, ⟨38⟩) ∈ registry.instances ∧
          registry.isVerbatim ⟨37⟩ = true ∧ registry.isVerbatim ⟨38⟩ = true ∧
          registry.boundaries.endBuiltins ≤ ⟨37⟩)) = true := by
    decide +kernel
  rcases exists_of_scenario passed with ⟨registry, changes, later, reachable, done, tested⟩
  rcases of_decide_eq_true tested with ⟨one, two, oneVerbatim, twoVerbatim, beyond⟩
  have first := builtin_unaltered_iff Dialect.wellFormed_evm reachable done (.inr ⟨_, one⟩)
  have second := builtin_unaltered_iff Dialect.wellFormed_evm reachable done (.inr ⟨_, two⟩)
  have oneLabel := first.2 ⟨1, 1⟩ one oneVerbatim
  have twoLabel := second.2 ⟨2, 1⟩ two twoVerbatim
  have unaltered := second.1.mpr (.inr (.inr ⟨_, twoLabel, by decide +kernel, .inl twoVerbatim⟩))
  refine ⟨registry, changes, later, reachable, done, one, fun same => ?_, unaltered,
    unaltered.label.trans twoLabel⟩
  rcases first.1.mp same with unused | fixed | ⟨label, labelled, legal, -⟩
  · exact unused (by decide)
  · exact not_lt.mpr beyond fixed
  · cases oneLabel.symm.trans labelled
    exact legal (by decide +kernel)

end NameRegistry.Registry
