import NameRegistry.Dialect.Presets
import NameRegistry.Proofs.Reachable

/-! # The lookup of a label

Names and labels drift apart: a derived name has no label, and an assignment adds labels
without names and leaves labels that nobody carries. The lookup of a label still finds a
name whenever a defined name has the label. Of several it prefers the one at the label's
own position, and then the last one.
-/

namespace NameRegistry

namespace Arena

/-! ## The preferred carrier -/

private theorem descending_names (arena : Arena) :
    arena.names.reverse.Pairwise fun left right => right < left := by
  rw [List.pairwise_reverse, names, List.pairwise_map]
  exact List.pairwise_lt_range

private theorem lastDefined?_last {arena : Arena} {position : LabelIndex} {name other : Name}
    (found : arena.lastDefined? position = some name) (less : name < other) :
    arena.state? other ≠ some (.defined position) := by
  intro defined
  rcases List.find?_eq_some_iff_append.mp found with ⟨-, later, earlier, split, skipped⟩
  have member : other ∈ later ++ name :: earlier := by
    rw [← split, List.mem_reverse]
    exact mem_names.mpr (contains_of_state? defined)
  have descending := arena.descending_names
  rw [split] at descending
  rcases List.mem_append.mp member with before | after
  · have differs := skipped other before
    simp [defined] at differs
  · rcases List.mem_cons.mp after with rfl | beyond
    · exact absurd less (lt_irrefl other)
    · have smaller := (List.pairwise_cons.mp (List.pairwise_append.mp descending).2.1).1
      exact absurd (lt_trans less (smaller other beyond)) (lt_irrefl name)

/-- A carrier of the label at a position that the lookup prefers to all others. -/
def Preferred (arena : Arena) (position : LabelIndex) (name : Name) : Prop :=
  name.index = position.index ∨
    arena.state? ⟨position.index⟩ ≠ some (.defined position) ∧
      ∀ other, name < other → arena.state? other ≠ some (.defined position)

private theorem preferred_of_carrier? {arena : Arena} {label : Label} {name : Name}
    {position : LabelIndex} (found : arena.carrier? label = some (name, position)) :
    arena.Preferred position name := by
  simp only [carrier?, Option.bind_eq_bind, Option.bind_eq_some_iff] at found
  rcases found with ⟨place, -, found⟩
  split at found
  · cases found
    exact .inl rfl
  · next elsewhere =>
      rcases Option.map_eq_some_iff.mp found with ⟨last, isLast, equal⟩
      cases equal
      exact .inr ⟨elsewhere, fun other => lastDefined?_last isLast⟩

private theorem Preferred.unique {arena : Arena} {position : LabelIndex} {left right : Name}
    (isLeft : arena.Preferred position left) (isRight : arena.Preferred position right)
    (leftDefined : arena.state? left = some (.defined position))
    (rightDefined : arena.state? right = some (.defined position)) : left = right := by
  have atHome {name : Name} (home : name.index = position.index) : name = ⟨position.index⟩ :=
    congrArg Name.mk home
  rcases isLeft with leftHome | ⟨leftElsewhere, leftLast⟩
  · rcases isRight with rightHome | ⟨rightElsewhere, -⟩
    · exact (atHome leftHome).trans (atHome rightHome).symm
    · exact absurd (atHome leftHome ▸ leftDefined) rightElsewhere
  · rcases isRight with rightHome | ⟨-, rightLast⟩
    · exact absurd (atHome rightHome ▸ rightDefined) leftElsewhere
    · rcases Nat.lt_trichotomy left.index right.index with less | same | greater
      · exact absurd rightDefined (leftLast right less)
      · exact congrArg Name.mk same
      · exact absurd leftDefined (rightLast left greater)

theorem Preferred.mono {arena later : Arena} {position : LabelIndex} {name : Name}
    (preferred : arena.Preferred position name)
    (fewer : ∀ other, later.state? other = some (.defined position) →
      arena.state? other = some (.defined position)) : later.Preferred position name := by
  rcases preferred with home | ⟨elsewhere, last⟩
  · exact .inl home
  · exact .inr ⟨fun defined => elsewhere (fewer _ defined),
      fun other less defined => last other less (fewer other defined)⟩

namespace Valid

variable {arena : Arena} (valid : arena.Valid)

include valid

theorem state?_eq_of_label? {left right : Name} {label : Label}
    (leftLabel : arena.label? left = some label)
    (rightLabel : arena.label? right = some label) :
    arena.state? left = arena.state? right := by
  rcases label?_eq_some_iff.mp leftLabel with ⟨position, leftDefined, leftKept⟩
  rcases label?_eq_some_iff.mp rightLabel with ⟨place, rightDefined, rightKept⟩
  cases valid.labels.unique leftKept rightKept
  exact leftDefined.trans rightDefined.symm

private theorem carrier?_eq_some_iff {label : Label} {name : Name} {position : LabelIndex} :
    arena.carrier? label = some (name, position) ↔
      arena.state? name = some (.defined position) ∧
        arena.labels.get? position = some label ∧ arena.Preferred position name := by
  constructor
  · intro found
    rcases carrier?_eq_some found with ⟨defined, kept⟩
    exact ⟨defined, kept, preferred_of_carrier? found⟩
  · intro given
    rcases given with ⟨defined, kept, preferred⟩
    rcases valid.exists_carrier? ((label?_of_defined defined).trans kept) with
      ⟨carrier, place, found⟩
    rcases carrier?_eq_some found with ⟨foundDefined, foundKept⟩
    cases valid.labels.unique foundKept kept
    cases (preferred_of_carrier? found).unique preferred foundDefined defined
    exact found

end Valid

end Arena

namespace Registry

/-! ## Carriers -/

/-- A defined name has the label. -/
def Carries (registry : Registry) (name : Name) (label : Label) : Prop :=
  (∃ position, registry.state? name = some (.defined position)) ∧
    registry.label? name = some label

section Valid

variable {registry : Registry} (valid : registry.arena.Valid)

include valid

theorem label?_of_defined {name : Name} {position : LabelIndex}
    (defined : registry.state? name = some (.defined position)) :
    registry.label? name = registry.arena.label? name := by
  rcases valid.label?_isSome defined with ⟨label, labelled⟩
  simp only [label?, labelled]

theorem carries_iff {name : Name} {label : Label} :
    registry.Carries name label ↔ registry.arena.label? name = some label := by
  constructor
  · intro carries
    rcases carries with ⟨⟨position, defined⟩, labelled⟩
    exact (label?_of_defined valid defined).symm.trans labelled
  · intro labelled
    rcases Arena.label?_eq_some_iff.mp labelled with ⟨position, defined, -⟩
    exact ⟨⟨position, defined⟩, (label?_of_defined valid defined).trans labelled⟩

theorem find?_eq_none_iff {label : Label} :
    registry.find? label = none ↔ ∀ name, registry.arena.label? name ≠ some label := by
  rw [find?, Option.map_eq_none_iff]
  constructor
  · intro absent name labelled
    rcases valid.exists_carrier? labelled with ⟨carrier, position, found⟩
    exact absurd (found.symm.trans absent) (by simp)
  · intro uncarried
    cases found : registry.arena.carrier? label with
    | none => rfl
    | some carrier => exact absurd (Arena.label?_of_carrier? found) (uncarried carrier.1)

theorem find?_eq_some_iff {label : Label} {name : Name} {position : LabelIndex}
    (kept : registry.arena.labels.get? position = some label) :
    registry.find? label = some name ↔
      registry.state? name = some (.defined position) ∧
        registry.arena.Preferred position name := by
  rw [find?, Option.map_eq_some_iff]
  constructor
  · intro given
    rcases given with ⟨⟨carrier, place⟩, found, rfl⟩
    rcases valid.carrier?_eq_some_iff.mp found with ⟨defined, placeKept, preferred⟩
    cases valid.labels.unique placeKept kept
    exact ⟨defined, preferred⟩
  · intro given
    exact ⟨(name, position), valid.carrier?_eq_some_iff.mpr ⟨given.1, kept, given.2⟩, rfl⟩

omit valid in
theorem label?_of_find? {label : Label} {carrier : Name}
    (found : registry.find? label = some carrier) :
    registry.arena.label? carrier = some label := by
  rcases Option.map_eq_some_iff.mp found with ⟨⟨name, position⟩, present, rfl⟩
  exact Arena.label?_of_carrier? present

end Valid

theorem find?_congr {registry later : Registry} (valid : registry.arena.Valid)
    (laterValid : later.arena.Valid) (grows : registry.arena.labels.Grows later.arena.labels)
    {label : Label}
    (carriers : ∀ name, later.arena.label? name = some label ↔
      registry.arena.label? name = some label) :
    later.find? label = registry.find? label := by
  cases found : registry.find? label with
  | none =>
      rw [find?_eq_none_iff laterValid]
      intro name labelled
      exact (find?_eq_none_iff valid).mp found name ((carriers name).mp labelled)
  | some carrier =>
      rcases Arena.label?_eq_some_iff.mp (label?_of_find? found) with ⟨position, -, kept⟩
      have stillKept := grows position label kept
      rcases (find?_eq_some_iff valid kept).mp found with ⟨defined, preferred⟩
      have before : ∀ name, later.arena.state? name = some (.defined position) →
          registry.arena.state? name = some (.defined position) := by
        intro name known
        have labelled := (carriers name).mp ((Arena.label?_of_defined known).trans stillKept)
        rcases Arena.label?_eq_some_iff.mp labelled with ⟨place, placed, placeKept⟩
        cases valid.labels.unique placeKept kept
        exact placed
      have labelled := (carriers carrier).mpr ((Arena.label?_of_defined defined).trans kept)
      rcases Arena.label?_eq_some_iff.mp labelled with ⟨place, placed, placeKept⟩
      cases laterValid.labels.unique placeKept stillKept
      exact (find?_eq_some_iff laterValid stillKept).mpr ⟨placed, preferred.mono before⟩

theorem carries_defined_iff {registry : Registry} {label other : Label} {name : Name}
    (valid : registry.arena.Valid) (laterValid : (registry.defined label).arena.Valid) :
    (registry.defined label).Carries name other ↔
      if name = registry.arena.next then label = other else registry.Carries name other := by
  rw [carries_iff laterValid, label?_defined registry name valid]
  split
  · simp
  · exact (carries_iff valid).symm

theorem Extension.carries {registry later : Registry} (extension : registry.Extension later)
    (sound : registry.Sound) {name : Name} {label : Label}
    (carries : registry.Carries name label) : later.Carries name label := by
  rcases carries with ⟨⟨position, defined⟩, labelled⟩
  have inside : registry.contains name = true := Arena.contains_of_state? defined
  exact ⟨⟨position, (extension.states name inside).trans defined⟩,
    (extension.label?_eq sound.arena inside).trans labelled⟩

/-! ## The guarantee -/

/-- The lookup of a label answers nothing exactly if no defined name has the label, and
otherwise a defined name that has it, in the state of all of them. So the label of a
defined name leads to a name in the same state. -/
theorem find?_sound_and_complete {dialect : Dialect} {registry : Registry}
    (reachable : Reachable dialect registry) (label : Label) :
    (registry.find? label = none ↔ ∀ name, ¬registry.Carries name label) ∧
    (∀ carrier, registry.find? label = some carrier →
      registry.Carries carrier label ∧
        ∀ name, registry.Carries name label →
          registry.state? name = registry.state? carrier) ∧
    ∀ name position, registry.state? name = some (.defined position) →
      ∃ own carrier, registry.label? name = some own ∧
        registry.find? own = some carrier ∧
        registry.state? carrier = some (.defined position) := by
  have valid := reachable.sound.2.arena
  refine ⟨?_, ?_, ?_⟩
  · simp only [find?_eq_none_iff valid, carries_iff valid, ne_eq]
  · intro carrier found
    have labelled := label?_of_find? found
    refine ⟨(carries_iff valid).mpr labelled, fun name carries => ?_⟩
    exact valid.state?_eq_of_label? ((carries_iff valid).mp carries) labelled
  · intro name position defined
    rcases valid.label?_isSome defined with ⟨own, labelled⟩
    have carried := (label?_of_defined valid defined).trans labelled
    cases found : registry.find? own with
    | none => exact absurd labelled ((find?_eq_none_iff valid).mp found name)
    | some carrier =>
        have same := valid.state?_eq_of_label? (label?_of_find? found) labelled
        exact ⟨own, carrier, carried, found, same.trans defined⟩

/-- A name has been moved away from a label that was interned for it, and another one has
come to share the label of a name that is not at the label's position. -/
theorem find?_after_relabelling :
    ∃ registry, Reachable .evm registry ∧ (∀ name, ¬registry.Carries name "a") ∧
      (registry.Carries ⟨40⟩ "b" ∧ registry.state? ⟨39⟩ = registry.state? ⟨40⟩) ∧
      ∃ own carrier, registry.label? ⟨37⟩ = some own ∧ registry.find? own = some carrier ∧
        registry.state? carrier = some (.defined ⟨39⟩) := by
  have passed : reaches .evm
      [.intern "a", .derive ⟨37⟩, .intern "b", .derive ⟨39⟩,
        .assignLabels [⟨37⟩, ⟨40⟩] ["a"]]
      (fun registry => decide (registry.find? "a" = none ∧
        registry.find? "b" = some ⟨40⟩ ∧ registry.state? ⟨39⟩ = some (.defined ⟨38⟩) ∧
        registry.label? ⟨39⟩ = some "b" ∧
        registry.state? ⟨37⟩ = some (.defined ⟨39⟩))) = true := by
    decide +kernel
  rcases exists_of_reaches passed with ⟨start, built, tested⟩
  rcases of_decide_eq_true tested with ⟨absent, found, defined, labelled, moved⟩
  have reachable := (Reachable.start built).run
    [.intern "a", .derive ⟨37⟩, .intern "b", .derive ⟨39⟩, .assignLabels [⟨37⟩, ⟨40⟩] ["a"]]
  rcases (find?_sound_and_complete reachable "b").2.1 ⟨40⟩ found with ⟨carries, same⟩
  exact ⟨_, reachable, (find?_sound_and_complete reachable "a").1.mp absent,
    ⟨carries, same ⟨39⟩ ⟨⟨_, defined⟩, labelled⟩⟩,
    (find?_sound_and_complete reachable "a").2.2 ⟨37⟩ _ moved⟩

end Registry

end NameRegistry
