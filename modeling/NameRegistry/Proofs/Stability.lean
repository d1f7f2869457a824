import NameRegistry.Proofs.Uniqueness

/-! # Final labels stay

Once names have got their final labels, a later assignment leaves them alone. New
names come after the old ones, so it is the new ones that have to give way.
-/

namespace NameRegistry.Registry

/-! ## Settled names -/

namespace Assigned

variable {registry later : Registry} {used : List Name} {illegal : List Label}
  {changes : List Relabelling} (assigned : Assigned registry used illegal changes later)
  (sound : registry.Sound)

include assigned sound

private theorem ownsLabel_later {name : Name} (member : name ∈ used)
    (beyond : registry.boundaries.endBuiltins ≤ name) : later.ownsLabel name = true := by
  rcases assigned.defined_or_kept sound member beyond with
    ⟨position, defined⟩ | ⟨verbatim, state, -⟩
  · simp [ownsLabel, isDerived, defined]
  · have same := assigned.relabels.evolves.isVerbatim_eq sound.arena assigned.relabels.arena state
    simp [ownsLabel, same, verbatim]

private theorem exists_label_later {name : Name} (member : name ∈ used)
    (owned : later.ownsLabel name = true) : ∃ label, later.label? name = some label := by
  by_cases builtin : name < registry.boundaries.endBuiltins
  · have state := assigned.relabels.state?_of_lt builtin
    have same := assigned.relabels.evolves.ownsLabel_eq sound.arena assigned.relabels.arena state
    rcases assigned.labelled name member (same.symm.trans owned) with ⟨label, labelled⟩
    exact ⟨label, (assigned.label?_of_lt sound builtin).trans labelled⟩
  · rcases assigned.exists_label sound member (not_lt.mp builtin) with ⟨label, labelled, -⟩
    exact ⟨label, labelled⟩

end Assigned

/-! ## The next assignment -/

section Next

variable {registry later grown : Registry} {used kept : List Name}
  {illegal fewer : List Label} {changes : List Relabelling}
  (assigned : Assigned registry used illegal changes later) (sound : registry.Sound)
  (extension : later.Extension grown)

include assigned extension

private theorem used_label?_eq {name : Name} (member : name ∈ used) :
    grown.label? name = later.label? name :=
  extension.label?_eq assigned.relabels.arena
    (assigned.relabels.evolves.contains (assigned.inside name member))

private theorem used_ownsLabel_eq {name : Name} (member : name ∈ used) :
    grown.ownsLabel name = later.ownsLabel name :=
  extension.ownsLabel_eq assigned.relabels.arena
    (assigned.relabels.evolves.contains (assigned.inside name member))

include sound

private theorem grown_fixedLabels_eq : grown.fixedLabels = registry.fixedLabels := by
  have laterSound := assigned.relabels.sound sound
  have boundary := extension.fixedLabels_eq laterSound.toConsistent extension.sound.arena
    fun name less => extension.states name (laterSound.contains_of_lt less)
  exact boundary.trans (assigned.fixedLabels_eq sound)

private theorem not_mem_targets (members : ∀ name ∈ kept, name ∈ used)
    (subset : ∀ label ∈ fewer, label ∈ illegal) {minted : List Name}
    (new : ∀ name ∈ minted, later.contains name = false) {name : Name} (member : name ∈ kept) :
    name ∉ grown.targets (kept ++ minted) fewer := by
  intro target
  rcases mem_targets.mp target with ⟨-, beyond, needs⟩
  rw [extension.boundaries, assigned.relabels.evolves.boundaries] at beyond
  have wasUsed := members name member
  have owned : grown.ownsLabel name = true :=
    (used_ownsLabel_eq assigned extension wasUsed).trans
      (assigned.ownsLabel_later sound wasUsed beyond)
  rw [needsLabel, owned, Bool.not_true, Bool.false_or, clashes_iff] at needs
  rcases needs with ⟨label, labelled, clash⟩
  rw [used_label?_eq assigned extension wasUsed] at labelled
  rcases assigned.exists_label sound wasUsed beyond with ⟨known, found, legal, notFixed⟩
  cases labelled.symm.trans found
  rcases clash with bad | fixed | ⟨earlier, present, less, -, same⟩
  · exact legal (subset label bad)
  · rw [grown_fixedLabels_eq assigned sound extension] at fixed
    exact notFixed fixed
  · rcases List.mem_append.mp present with old | fresh
    · have earlierUsed := members earlier old
      rw [used_label?_eq assigned extension earlierUsed] at same
      exact assigned.label?_ne_of_lt sound earlierUsed wasUsed less beyond labelled same
    · have inside := assigned.relabels.evolves.contains (assigned.inside name wasUsed)
      have earlierInside : later.contains earlier = true :=
        Arena.contains_of_lt (Nat.lt_trans less (Arena.lt_size inside))
      exact absurd (earlierInside.symm.trans (new earlier fresh)) (by simp)

end Next

/-! ## The guarantee -/

/-- Names that have got final labels keep state and label in every later assignment that
forbids no further labels, and without new names it changes nothing. -/
theorem final_labels_stable {dialect : Dialect} {registry later : Registry}
    {used kept : List Name} {illegal fewer : List Label} {changes : List Relabelling}
    {commands : List Command} (reachable : Reachable dialect registry)
    (done : assignLabels used illegal registry = .ok changes later)
    (appends : ∀ command ∈ commands, command.appends = true)
    (sublist : kept.Sublist used) (subset : ∀ label ∈ fewer, label ∈ illegal) :
    (∀ minted nextChanges final,
      (∀ name ∈ minted, later.contains name = false) →
      assignLabels (kept ++ minted) fewer (run commands later) = .ok nextChanges final →
      ∀ name ∈ kept, final.state? name = later.state? name ∧
        final.label? name = later.label? name) ∧
    assignLabels kept fewer (run commands later) = .ok [] (run commands later) := by
  have sound := reachable.sound.2
  have assigned := assigned_of_assignLabels sound.arena done
  have extension := extension_run appends (assigned.relabels.sound sound)
  have members (name : Name) (member : name ∈ kept) : name ∈ used := sublist.subset member
  have inside (name : Name) (member : name ∈ kept) : later.contains name = true :=
    assigned.relabels.evolves.contains (assigned.inside name (members name member))
  constructor
  · intro minted nextChanges final new next name member
    have nextAssigned := assigned_of_assignLabels extension.sound.arena next
    have notTarget := not_mem_targets assigned sound extension members subset new member
    have known := inside name member
    have label := nextAssigned.label?_kept extension.sound (extension.contains known) notTarget
    exact ⟨(nextAssigned.kept name notTarget).trans (extension.states name known),
      label.trans (used_label?_eq assigned extension (members name member))⟩
  · have ascending : Ascending kept := assigned.ascending.sublist sublist
    apply assignLabels_of_settled extension.sound.arena ascending
    · intro name member owned
      have wasUsed := members name member
      rw [used_ownsLabel_eq assigned extension wasUsed] at owned
      rw [used_label?_eq assigned extension wasUsed]
      exact ⟨extension.contains (inside name member),
        assigned.exists_label_later sound wasUsed owned⟩
    · apply List.eq_nil_iff_forall_not_mem.mpr
      intro name target
      have member := (mem_targets.mp target).1
      have noneNew : ∀ name ∈ ([] : List Name), later.contains name = false :=
        fun _ none => absurd none (by simp)
      have notTarget := not_mem_targets assigned sound extension members subset noneNew member
      rw [List.append_nil] at notTarget
      exact notTarget target

/-- The first assignment gives a shared label and a new one, and for the second a name
comes in that has to give way. -/
theorem final_labels_stable_after_growth :
    ∃ registry changes later nextChanges final, Reachable .evm registry ∧
      assignLabels [⟨37⟩, ⟨39⟩, ⟨40⟩, ⟨41⟩] ["a"] registry = .ok changes later ∧
      assignLabels [⟨37⟩, ⟨40⟩, ⟨41⟩, ⟨42⟩, ⟨43⟩] []
        (run [.derive ⟨39⟩, .intern "a"] later) = .ok nextChanges final ∧
      (final.state? ⟨37⟩ = later.state? ⟨37⟩ ∧ final.label? ⟨37⟩ = later.label? ⟨37⟩) ∧
      assignLabels [⟨37⟩, ⟨40⟩, ⟨41⟩] [] (run [.derive ⟨39⟩, .intern "a"] later) =
        .ok [] (run [.derive ⟨39⟩, .intern "a"] later) := by
  have passed : scenario .evm
      [.intern "a", .intern "a_1", .derive ⟨37⟩, .verbatim ⟨1, 1⟩, .derive ⟨38⟩]
      [⟨37⟩, ⟨39⟩, ⟨40⟩, ⟨41⟩] ["a"]
      (fun _ _ later => !later.contains ⟨42⟩ && !later.contains ⟨43⟩ &&
        succeeds (assignLabels [⟨37⟩, ⟨40⟩, ⟨41⟩, ⟨42⟩, ⟨43⟩] [])
          (run [.derive ⟨39⟩, .intern "a"] later)) = true := by
    decide +kernel
  rcases exists_of_scenario passed with ⟨registry, changes, later, reachable, done, tested⟩
  have facts : (later.contains ⟨42⟩ = false ∧ later.contains ⟨43⟩ = false) ∧
      succeeds (assignLabels [⟨37⟩, ⟨40⟩, ⟨41⟩, ⟨42⟩, ⟨43⟩] [])
        (run [.derive ⟨39⟩, .intern "a"] later) = true := by
    simpa using tested
  rcases exists_of_succeeds facts.2 with ⟨nextChanges, final, next⟩
  have appends : ∀ command ∈ [Command.derive ⟨39⟩, .intern "a"], command.appends = true := by
    decide
  have sublist : [(⟨37⟩ : Name), ⟨40⟩, ⟨41⟩].Sublist [⟨37⟩, ⟨39⟩, ⟨40⟩, ⟨41⟩] := by decide
  have subset : ∀ label ∈ ([] : List Label), label ∈ ["a"] := by simp
  rcases final_labels_stable reachable done appends sublist subset with ⟨stable, settled⟩
  refine ⟨registry, changes, later, nextChanges, final, reachable, done, next, ?_, settled⟩
  refine stable [⟨42⟩, ⟨43⟩] nextChanges final ?_ next ⟨37⟩ (by decide)
  intro name minted
  simp only [List.mem_cons, List.not_mem_nil, or_false] at minted
  rcases minted with rfl | rfl
  · exact facts.1.1
  · exact facts.1.2

end NameRegistry.Registry
