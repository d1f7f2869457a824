import NameRegistry.Dialect.Presets
import NameRegistry.Proofs.Reachable

/-! # Final labels are unique and legal

A name that keeps its label has none that is illegal or in use, because of the
review, and neither has a name that gets a new one, because of the search.
-/

namespace NameRegistry.Registry

/-! ## Chosen labels -/

namespace Chosen

variable {registry : Registry} {taken illegal : List Label} {changes : List Relabelling}

theorem not_mem (chosen : Chosen registry taken illegal changes) {change : Relabelling}
    (member : change ∈ changes) : change.label ∉ taken ∧ change.label ∉ illegal := by
  induction chosen with
  | nil => exact absurd member (by simp)
  | @snoc changes last base earlier current free fresh induction =>
      rcases List.mem_append.mp member with before | final
      · exact induction before
      · cases List.mem_singleton.mp final
        have notInUse := Suffix.free_not_mem base (inUse taken illegal changes)
        rw [← free] at notInUse
        simp only [inUse, List.mem_append, not_or] at notInUse
        exact ⟨notInUse.1.2, notInUse.2⟩

theorem nodup (chosen : Chosen registry taken illegal changes) :
    (changes.map Relabelling.label).Nodup := by
  induction chosen with
  | nil => exact List.nodup_nil
  | @snoc changes last base earlier current free fresh induction =>
      have notInUse := Suffix.free_not_mem base (inUse taken illegal changes)
      rw [← free] at notInUse
      simp only [inUse, List.mem_append, not_or] at notInUse
      rw [List.map_append, List.map_singleton, List.nodup_append]
      refine ⟨induction, List.nodup_singleton _, fun label member other final same => ?_⟩
      rw [List.mem_singleton.mp final] at same
      exact notInUse.1.1 (same ▸ member)

end Chosen

/-! ## Labels after an assignment -/

namespace Assigned

variable {registry later : Registry} {used : List Name} {illegal : List Label}
  {changes : List Relabelling} (assigned : Assigned registry used illegal changes later)

include assigned

theorem exists_change {name : Name} (target : name ∈ registry.targets used illegal) :
    ∃ change ∈ changes, change.name = name := by
  rw [← assigned.names] at target
  exact List.mem_map.mp target

theorem label?_given {change : Relabelling} (member : change ∈ changes) :
    later.label? change.name = some change.label := by
  simp only [label?, assigned.given change member]

theorem kept_label_ne {name : Name} (member : name ∈ used)
    (owned : registry.ownsLabel name = true) {label : Label}
    (labelled : registry.label? name = some label) {change : Relabelling}
    (present : change ∈ changes) : change.label ≠ label := by
  intro same
  have taken : label ∈ registry.takenLabels used :=
    List.mem_append_right _ (mem_ownedLabels.mpr ⟨name, member, owned, labelled⟩)
  exact (assigned.chosen.not_mem present).1 (same ▸ taken)

section Kept

variable (sound : registry.Sound)

include sound

theorem label?_kept {name : Name} (inside : registry.contains name = true)
    (kept : name ∉ registry.targets used illegal) :
    later.label? name = registry.label? name :=
  assigned.relabels.evolves.label?_eq sound.arena assigned.relabels.arena
    (assigned.kept name kept) inside

theorem label?_of_lt {name : Name} (less : name < registry.boundaries.endBuiltins) :
    later.label? name = registry.label? name := by
  apply assigned.label?_kept sound
  · exact sound.contains_of_lt less
  · intro target
    exact absurd less (not_lt.mpr (mem_targets.mp target).2.1)

theorem fixedLabels_eq : later.fixedLabels = registry.fixedLabels :=
  assigned.relabels.evolves.fixedLabels_eq sound.toConsistent assigned.relabels.arena
    fun _ less => assigned.relabels.state?_of_lt less

private theorem label?_cases {name : Name} (member : name ∈ used)
    (beyond : registry.boundaries.endBuiltins ≤ name) :
    (∃ change ∈ changes, change.name = name ∧ later.label? name = some change.label) ∨
      registry.ownsLabel name = true ∧ registry.clashes used illegal name = false ∧
        name ∉ registry.targets used illegal ∧
        ∃ label, registry.label? name = some label ∧ later.label? name = some label := by
  by_cases target : name ∈ registry.targets used illegal
  · rcases assigned.exists_change target with ⟨change, present, rfl⟩
    exact .inl ⟨change, present, rfl, assigned.label?_given present⟩
  · rcases not_needed_of_not_target member beyond target with ⟨owned, fits⟩
    rcases assigned.labelled name member owned with ⟨label, labelled⟩
    exact .inr ⟨owned, fits, target, label, labelled,
      (assigned.label?_kept sound (assigned.inside name member) target).trans labelled⟩

theorem exists_label {name : Name} (member : name ∈ used)
    (beyond : registry.boundaries.endBuiltins ≤ name) :
    ∃ label, later.label? name = some label ∧ label ∉ illegal ∧
      label ∉ registry.fixedLabels := by
  rcases assigned.label?_cases sound member beyond with
    ⟨change, present, -, labelled⟩ | ⟨-, fits, -, label, before, labelled⟩
  · rcases assigned.chosen.not_mem present with ⟨notTaken, legal⟩
    exact ⟨change.label, labelled, legal, fun fixed =>
      notTaken (List.mem_append_left _ fixed)⟩
  · rcases clashes_eq_false fits before with ⟨legal, notFixed, -⟩
    exact ⟨label, labelled, legal, notFixed⟩

theorem label?_ne_of_lt {name other : Name} (member : name ∈ used) (present : other ∈ used)
    (less : name < other) (beyond : registry.boundaries.endBuiltins ≤ other) {label : Label}
    (labelled : later.label? other = some label) : later.label? name ≠ some label := by
  by_cases builtin : name < registry.boundaries.endBuiltins
  · rw [assigned.label?_of_lt sound builtin]
    intro same
    rcases assigned.exists_label sound present beyond with ⟨known, found, -, notFixed⟩
    cases labelled.symm.trans found
    exact notFixed (mem_fixedLabels.mpr ⟨name, builtin, same⟩)
  · intro same
    rcases assigned.label?_cases sound member (not_lt.mp builtin) with
      ⟨first, firstIn, firstName, firstLabel⟩ | ⟨owned, -, -, kept, before, after⟩
    · cases same.symm.trans firstLabel
      rcases assigned.label?_cases sound present beyond with
        ⟨second, secondIn, secondName, secondLabel⟩ | ⟨owned, -, -, kept, before, after⟩
      · have equal := labelled.symm.trans secondLabel
        have sameChange := List.inj_on_of_nodup_map assigned.chosen.nodup firstIn secondIn
          (Option.some.inj equal)
        rw [← firstName, ← secondName, sameChange] at less
        exact lt_irrefl _ less
      · cases labelled.symm.trans after
        exact assigned.kept_label_ne present owned before firstIn rfl
    · cases same.symm.trans after
      rcases assigned.label?_cases sound present beyond with
        ⟨second, secondIn, -, secondLabel⟩ | ⟨-, fits, -, held, heldBefore, heldAfter⟩
      · cases labelled.symm.trans secondLabel
        exact assigned.kept_label_ne member owned before secondIn rfl
      · cases labelled.symm.trans heldAfter
        exact (clashes_eq_false fits heldBefore).2.2 name member less owned before

end Kept

theorem defined_or_kept (sound : registry.Sound) {name : Name} (member : name ∈ used)
    (beyond : registry.boundaries.endBuiltins ≤ name) :
    (∃ position, later.state? name = some (.defined position)) ∨
      registry.isVerbatim name = true ∧ later.state? name = registry.state? name ∧
        later.label? name = registry.label? name := by
  by_cases target : name ∈ registry.targets used illegal
  · rcases assigned.exists_change target with ⟨change, present, rfl⟩
    rcases Arena.label?_eq_some_iff.mp (assigned.given change present) with
      ⟨position, defined, -⟩
    exact .inl ⟨position, defined⟩
  · have inside := assigned.inside name member
    have state := assigned.kept name target
    have owned := (not_needed_of_not_target member beyond target).1
    rcases Arena.contains_iff.mp inside with ⟨kind, known⟩
    cases kind with
    | defined position => exact .inl ⟨position, state.trans known⟩
    | derived base =>
        have derived : registry.isDerived name = true := by
          simp [isDerived, Registry.state?, known]
        have verbatim : registry.isVerbatim name = true := by
          simpa [ownsLabel, derived] using owned
        exact .inr ⟨verbatim, state, assigned.label?_kept sound inside target⟩

end Assigned

/-! ## The guarantee -/

private theorem label_empty_mem_fixedLabels {registry : Registry} (sound : registry.Sound) :
    "" ∈ registry.fixedLabels := by
  have first : Name.empty < registry.boundaries.endBuiltins :=
    Nat.lt_of_le_of_lt (Nat.zero_le _) sound.base
  exact mem_fixedLabels.mpr ⟨.empty, first, by simp only [label?, sound.root]⟩

/-- After an assignment that succeeds, every used name after the built-ins has a label
that is legal and that neither a type, a built-in nor another used name has. -/
theorem final_labels_unique_and_legal {dialect : Dialect} {registry later : Registry}
    {used : List Name} {illegal : List Label} {changes : List Relabelling}
    (reachable : Reachable dialect registry)
    (done : assignLabels used illegal registry = .ok changes later) :
    (∀ name ∈ used, registry.boundaries.endBuiltins ≤ name →
      ∃ label, later.label? name = some label ∧ label ∉ illegal ∧ label ≠ "" ∧
        ∀ fixed, fixed < registry.boundaries.endBuiltins → later.label? fixed ≠ some label) ∧
    (∀ left ∈ used, ∀ right ∈ used, left ≠ right →
      registry.boundaries.endBuiltins ≤ left ∨ registry.boundaries.endBuiltins ≤ right →
      later.label? left ≠ later.label? right) ∧
    ∀ name ∈ used, registry.boundaries.endBuiltins ≤ name →
      (∃ position, later.state? name = some (.defined position)) ∨
        registry.isVerbatim name = true ∧ later.state? name = registry.state? name ∧
          later.label? name = registry.label? name := by
  have sound := reachable.sound.2
  have assigned := assigned_of_assignLabels sound.arena done
  have ordered {small large : Name} (first : small ∈ used) (second : large ∈ used)
      (less : small < large)
      (beyond : registry.boundaries.endBuiltins ≤ small ∨
        registry.boundaries.endBuiltins ≤ large) :
      later.label? small ≠ later.label? large := by
    have largeBeyond : registry.boundaries.endBuiltins ≤ large := by
      rcases beyond with below | above
      · exact Nat.le_trans below (Nat.le_of_lt less)
      · exact above
    rcases assigned.exists_label sound second largeBeyond with ⟨label, labelled, -, -⟩
    rw [labelled]
    exact assigned.label?_ne_of_lt sound first second less largeBeyond labelled
  refine ⟨?_, ?_, fun name => assigned.defined_or_kept sound⟩
  · intro name member beyond
    rcases assigned.exists_label sound member beyond with ⟨label, labelled, legal, notFixed⟩
    refine ⟨label, labelled, legal, ?_, ?_⟩
    · intro empty
      exact notFixed (empty ▸ label_empty_mem_fixedLabels sound)
    · intro fixed less same
      rw [assigned.label?_of_lt sound less] at same
      exact notFixed (mem_fixedLabels.mpr ⟨fixed, less, same⟩)
  · intro left leftIn right rightIn different beyond
    rcases Nat.lt_trichotomy left.index right.index with less | same | greater
    · exact ordered leftIn rightIn less beyond
    · exact absurd (congrArg Name.mk same) different
    · exact Ne.symm (ordered rightIn leftIn greater beyond.symm)

/-- A second assignment, for which the label of a variable has become illegal: the
variable, a variant of it and a verbatim built-in are told apart. -/
theorem final_labels_of_variant :
    ∃ registry changes later, Reachable .evm registry ∧
      assignLabels [⟨37⟩, ⟨39⟩, ⟨40⟩] ["a"] registry = .ok changes later ∧
      (∃ label, later.label? ⟨39⟩ = some label ∧ label ∉ ["a"] ∧ label ≠ "" ∧
        ∀ fixed, fixed < registry.boundaries.endBuiltins → later.label? fixed ≠ some label) ∧
      later.label? ⟨37⟩ ≠ later.label? ⟨39⟩ ∧
      ((∃ position, later.state? ⟨40⟩ = some (.defined position)) ∨
        registry.isVerbatim ⟨40⟩ = true ∧ later.state? ⟨40⟩ = registry.state? ⟨40⟩ ∧
          later.label? ⟨40⟩ = registry.label? ⟨40⟩) := by
  have passed : scenario .evm
      [.intern "a", .intern "a_1", .derive ⟨37⟩, .verbatim ⟨1, 1⟩,
        .assignLabels [⟨37⟩, ⟨39⟩] ["b"]]
      [⟨37⟩, ⟨39⟩, ⟨40⟩] ["a"]
      (fun registry _ _ => registry.boundaries.endBuiltins ≤ ⟨37⟩) = true := by
    decide +kernel
  rcases exists_of_scenario passed with ⟨registry, changes, later, reachable, done, ended⟩
  have beyond (index : Nat) (large : 37 ≤ index) :
      registry.boundaries.endBuiltins ≤ ⟨index⟩ :=
    Nat.le_trans (Name.le_def.mp (of_decide_eq_true ended)) large
  rcases final_labels_unique_and_legal reachable done with ⟨legal, unique, kept⟩
  exact ⟨registry, changes, later, reachable, done,
    legal ⟨39⟩ (by decide) (beyond 39 (by decide)),
    unique ⟨37⟩ (by decide) ⟨39⟩ (by decide) (by decide) (.inl (beyond 37 (by decide))),
    kept ⟨40⟩ (by decide) (beyond 40 (by decide))⟩

end NameRegistry.Registry
