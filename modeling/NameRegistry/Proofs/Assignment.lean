import NameRegistry.Proofs.Choice
import NameRegistry.Proofs.Setup

/-! # What an assignment of final labels does

An assignment gives a label to each used name that needs one and changes nothing
else. Which names these are and what labels they get is told from the registry
before the assignment.
-/

namespace NameRegistry.Registry

/-- The used names that get a new label, in ascending order. -/
def targets (registry : Registry) (used : List Name) (illegal : List Label) : List Name :=
  used.filter fun name =>
    registry.boundaries.endBuiltins ≤ name && registry.needsLabel used illegal name

theorem mem_targets {registry : Registry} {used : List Name} {illegal : List Label}
    {name : Name} :
    name ∈ registry.targets used illegal ↔
      name ∈ used ∧ registry.boundaries.endBuiltins ≤ name ∧
        registry.needsLabel used illegal name = true := by
  simp [targets]

theorem not_needed_of_not_target {registry : Registry} {used : List Name}
    {illegal : List Label} {name : Name} (member : name ∈ used)
    (beyond : registry.boundaries.endBuiltins ≤ name)
    (kept : name ∉ registry.targets used illegal) :
    registry.ownsLabel name = true ∧ registry.clashes used illegal name = false := by
  apply needsLabel_eq_false
  cases needs : registry.needsLabel used illegal name with
  | false => rfl
  | true => exact absurd (mem_targets.mpr ⟨member, beyond, needs⟩) kept

/-- The labels in use before any is chosen. -/
def takenLabels (registry : Registry) (used : List Name) : List Label :=
  registry.fixedLabels ++ registry.ownedLabels used

theorem mem_takenLabels_of_carried {registry : Registry} {used : List Name} {name : Name}
    {label : Label} (member : name ∈ used) (carried : registry.arena.label? name = some label) :
    label ∈ registry.takenLabels used := by
  rcases Arena.label?_eq_some_iff.mp carried with ⟨position, defined, -⟩
  refine List.mem_append_right _ (mem_ownedLabels.mpr ⟨name, member, ?_, ?_⟩)
  · simp [ownsLabel, isDerived, Registry.state?, defined]
  · simp [Registry.label?, carried]

/-! ## The second walk -/

namespace Follows

variable {registry : Registry} {used : List Name} {illegal : List Label} {review : Review}
  {progress : Progress}
  (follows : Follows registry (registry.takenLabels used) illegal progress)
  (valid : registry.arena.Valid) (reviewed : Reviewed registry illegal used review)

include follows valid reviewed

private theorem needsLabel_eq {name : Name} (member : name ∈ used)
    (absent : name ∉ progress.changes.map Relabelling.name) :
    progress.needsLabel review.clashing name = registry.needsLabel used illegal name := by
  unfold Progress.needsLabel Registry.needsLabel
  rw [follows.ownsLabel_eq valid absent]
  cases owned : registry.ownsLabel name with
  | false => rfl
  | true =>
      have clashing := reviewed.clashing name
      simp only [member, owned, true_and] at clashing
      rw [Bool.eq_iff_iff]
      simpa using clashing

private theorem visit {name : Name} (member : name ∈ used) (inside : registry.contains name = true)
    (absent : name ∉ progress.changes.map Relabelling.name) :
    ∃ added, added.map Relabelling.name =
        (if registry.needsLabel used illegal name then [name] else []) ∧
      (Progress.visit illegal review.clashing progress name).changes =
        progress.changes ++ added ∧
      Follows registry (registry.takenLabels used) illegal
        (Progress.visit illegal review.clashing progress name) := by
  unfold Progress.visit
  rw [follows.needsLabel_eq valid reviewed member absent]
  cases needs : registry.needsLabel used illegal name with
  | false => exact ⟨[], rfl, (List.append_nil _).symm, follows⟩
  | true =>
      have current := follows.baseLabel?_eq valid absent
      rcases follows.arena.exists_baseLabel? (follows.evolves.contains inside) with
        ⟨base, label, linked, labelled⟩
      have based : progress.registry.baseLabel? name = some label := by
        simp [Registry.baseLabel?, Arena.baseLabel?, linked, labelled]
      rcases follows.relabel valid absent inside (current.symm.trans based)
          (fun _ => mem_takenLabels_of_carried member) with ⟨change, about, changes, next⟩
      simp only [if_true, based]
      exact ⟨[change], by simp [about], changes, next⟩

private theorem walk {names : List Name} (nodup : names.Nodup)
    (members : ∀ name ∈ names, name ∈ used ∧ registry.contains name = true)
    (absent : ∀ name ∈ names, name ∉ progress.changes.map Relabelling.name) :
    ∃ added, added.map Relabelling.name = names.filter (registry.needsLabel used illegal) ∧
      (names.foldl (Progress.visit illegal review.clashing) progress).changes =
        progress.changes ++ added ∧
      Follows registry (registry.takenLabels used) illegal
        (names.foldl (Progress.visit illegal review.clashing) progress) := by
  induction names generalizing progress with
  | nil => exact ⟨[], rfl, (List.append_nil _).symm, follows⟩
  | cons name names induction =>
      have parts := List.nodup_cons.mp nodup
      rcases members name List.mem_cons_self with ⟨member, inside⟩
      rcases follows.visit valid reviewed member inside (absent name List.mem_cons_self) with
        ⟨first, about, changes, next⟩
      have stillAbsent : ∀ other ∈ names, other ∉
          (Progress.visit illegal review.clashing progress name).changes.map
            Relabelling.name := by
        intro other later given
        rw [changes, List.map_append, about] at given
        rcases List.mem_append.mp given with old | new
        · exact absent other (List.mem_cons_of_mem name later) old
        · split at new
          · cases List.mem_singleton.mp new
            exact parts.1 later
          · exact absurd new (by simp)
      rcases induction next parts.2
          (fun other later => members other (List.mem_cons_of_mem name later)) stillAbsent with
        ⟨rest, restAbout, restChanges, final⟩
      refine ⟨first ++ rest, ?_, ?_, final⟩
      · rw [List.map_append, about, restAbout, List.filter_cons]
        split <;> rfl
      · rw [List.foldl_cons, restChanges, changes, List.append_assoc]

end Follows

private theorem Reviewed.contains {registry : Registry} {used : List Name} {illegal : List Label}
    {review : Review} (reviewed : Reviewed registry illegal used review) {name : Name}
    (member : name ∈ used) : registry.contains name = true := by
  cases owned : registry.ownsLabel name with
  | true => exact (reviewed.labelled name member owned).1
  | false =>
      simp only [ownsLabel, isDerived, Bool.or_eq_false_iff, Bool.not_eq_false'] at owned
      split at owned
      · next base derived => exact Arena.contains_of_state? derived
      · exact absurd owned.1 (by simp)

theorem commonAscending_openNames {registry : Registry} {used : List Name}
    (ascending : Ascending used) (inside : ∀ name ∈ used, registry.contains name = true) :
    commonAscending registry.openNames used =
      used.filter (registry.boundaries.endBuiltins ≤ ·) := by
  rw [commonAscending_eq_filter registry.ascending_openNames ascending]
  apply List.filter_congr
  intro name member
  simp [mem_openNames, inside name member]

/-- All that a choice of labels that succeeds has checked and chosen. -/
structure Choice (registry : Registry) (used : List Name) (illegal : List Label)
    (progress : Progress) : Prop where
  ascending : Ascending used
  inside : ∀ name ∈ used, registry.contains name = true
  labelled : ∀ name ∈ used, registry.ownsLabel name = true →
    ∃ label, registry.label? name = some label
  names : progress.changes.map Relabelling.name = registry.targets used illegal
  follows : Follows registry (registry.takenLabels used) illegal progress

theorem choice_of_chooseLabels {registry : Registry} {used : List Name} {illegal : List Label}
    {progress : Progress} (valid : registry.arena.Valid)
    (chosen : registry.chooseLabels used illegal = .ok progress) :
    Choice registry used illegal progress := by
  unfold chooseLabels at chosen
  cases reviewEq : registry.review used illegal with
  | error error =>
      rw [reviewEq] at chosen
      exact absurd chosen (by simp [bind, Except.bind])
  | ok review =>
      rw [reviewEq] at chosen
      cases chosen
      rcases reviewed_of_review reviewEq with ⟨ascending, reviewed⟩
      have inside : ∀ name ∈ used, registry.contains name = true :=
        fun name member => reviewed.contains member
      have visited := commonAscending_openNames ascending inside
      have start : Follows registry (registry.takenLabels used) illegal
          { registry, taken := review.taken } := Follows.start valid reviewed.taken
      have walked := @Follows.walk registry used illegal review _ start valid reviewed
        (commonAscending registry.openNames used)
        (visited ▸ ascending.nodup.filter _)
        (fun name member =>
          have listed := List.mem_of_mem_filter (visited ▸ member)
          ⟨listed, inside name listed⟩)
        (fun _ _ => by simp)
      rcases walked with ⟨added, about, changes, follows⟩
      refine ⟨ascending, inside,
        fun name member owned => (reviewed.labelled name member owned).2, ?_, follows⟩
      rw [changes, List.nil_append, about, visited, List.filter_filter]
      apply List.filter_congr
      intro name _
      exact Bool.and_comm _ _

/-! ## Changes of labels in general -/

/-- A later state in which some names after the built-ins have got other labels, all
of them among `given`. -/
structure Relabels (given : List Label) (registry later : Registry) : Prop where
  frame : later = { registry with arena := later.arena }
  arena : later.arena.Valid
  labels : registry.arena.labels.Grows later.arena.labels
  size : later.size = registry.size
  states : ∀ name, later.state? name = registry.state? name ∨
    registry.boundaries.endBuiltins ≤ name ∧
      ∃ label ∈ given, later.arena.label? name = some label

namespace Relabels

variable {given : List Label} {registry middle later : Registry}

private theorem refl (given : List Label) (valid : registry.arena.Valid) :
    Relabels given registry registry where
  frame := rfl
  arena := valid
  labels := .refl _
  size := rfl
  states := fun _ => .inl rfl

theorem evolves (relabels : Relabels given registry later) : registry.Evolves later := by
  rw [relabels.frame]
  exact { Evolves.refl registry with
    size := Nat.le_of_eq relabels.size.symm
    labels := relabels.labels }

private theorem trans (first : Relabels given registry middle)
    (second : Relabels given middle later) : Relabels given registry later where
  frame := by rw [second.frame, first.frame]
  arena := second.arena
  labels := first.labels.trans second.labels
  size := second.size.trans first.size
  states := by
    have boundaries := first.evolves.boundaries
    intro name
    rcases second.states name with same | changed
    · rcases first.states name with kept | ⟨beyond, label, member, labelled⟩
      · exact .inl (same.trans kept)
      · have still := second.evolves.arenaLabel?_eq first.arena same
        exact .inr ⟨beyond, label, member, still.trans labelled⟩
    · exact .inr (boundaries ▸ changed)

theorem state?_of_lt (relabels : Relabels given registry later) {name : Name}
    (less : name < registry.boundaries.endBuiltins) :
    later.state? name = registry.state? name := by
  rcases relabels.states name with same | ⟨beyond, -⟩
  · exact same
  · exact absurd less (not_lt.mpr beyond)

theorem sound (relabels : Relabels given registry later) (sound : registry.Sound) :
    later.Sound := by
  have evolves := relabels.evolves
  have first : Name.empty < registry.boundaries.endBuiltins :=
    Nat.lt_of_le_of_lt (Nat.zero_le _) sound.base
  have root := evolves.arenaLabel?_eq sound.arena (relabels.state?_of_lt first)
  refine ⟨⟨relabels.arena, root.trans sound.root, ?_, ?_, ?_⟩, ?_⟩
  · rw [evolves.predefined]
    exact evolves.contains sound.verbatim
  · rw [evolves.boundaries]
    exact Nat.le_trans sound.builtins evolves.size
  · intro arity name member
    rw [relabels.frame] at member
    exact evolves.contains (sound.instances arity name member)
  · rw [evolves.predefined, evolves.boundaries]
    exact sound.base

end Relabels

/-! ## Installing the labels -/

theorem install_cases (change : Relabelling) (registry : Registry) :
    (change.isGenerated = false ∧ install change registry = .ok () registry) ∨
      change.isGenerated = true ∧
        (install change registry = .ok () { registry with
            arena := (registry.arena.withLabel change.label).redefine change.name
              (registry.arena.labels.position change.label) } ∨
          Arena.labelCapacity ≤ registry.arena.labels.size ∧
            ∃ count, install change registry = .error (.arenaFull count) registry) := by
  cases change with
  | aliased => exact .inl ⟨rfl, rfl⟩
  | generated name label =>
      refine .inr ⟨rfl, ?_⟩
      unfold install onArena
      simp only
      rcases Arena.relabel_cases name label registry.arena with done | ⟨full, count, failed⟩
      · rw [done]
        exact .inl rfl
      · rw [failed]
        exact .inr ⟨full, count, rfl⟩

theorem relabels_redefine {given : List Label} {registry : Registry}
    (valid : registry.arena.Valid) {label : Label} (member : label ∈ given) {name : Name}
    (beyond : registry.boundaries.endBuiltins ≤ name) :
    Relabels given registry { registry with
      arena := (registry.arena.withLabel label).redefine name
        (registry.arena.labels.position label) } where
  frame := rfl
  arena := (valid.withLabel label).redefine name (registry.arena.labels.get?_position label)
  labels := registry.arena.labels.grows_withLabel label
  size := Arena.size_redefine _ _ _
  states := by
    intro other
    have state := (registry.arena.withLabel label).state?_redefine name other
      (registry.arena.labels.position label)
    split at state
    · next condition =>
        have kept := registry.arena.labels.get?_position label
        exact .inr ⟨condition.1 ▸ beyond, label, member,
          (Arena.label?_of_defined state).trans kept⟩
    · exact .inl state

private theorem relabels_install {given : List Label} {registry : Registry}
    (valid : registry.arena.Valid) {change : Relabelling} (member : change.label ∈ given)
    (beyond : registry.boundaries.endBuiltins ≤ change.name) :
    Relabels given registry (after (install change) registry) := by
  unfold after
  rcases install_cases change registry with ⟨-, done⟩ | ⟨-, done | ⟨-, count, failed⟩⟩
  · rw [done]
    exact .refl given valid
  · rw [done]
    exact relabels_redefine valid member beyond
  · rw [failed]
    exact .refl given valid

theorem relabels_installAll {given : List Label} {changes : List Relabelling}
    {registry : Registry} (valid : registry.arena.Valid)
    (members : ∀ change ∈ changes, change.label ∈ given)
    (beyond : ∀ change ∈ changes, registry.boundaries.endBuiltins ≤ change.name) :
    Relabels given registry (after (changes.forM install) registry) := by
  induction changes generalizing registry with
  | nil => exact .refl given valid
  | cons change changes induction =>
      have others {other : Relabelling} (member : other ∈ changes) :=
        List.mem_cons_of_mem change member
      have first := relabels_install valid (members change List.mem_cons_self)
        (beyond change List.mem_cons_self)
      have sequence : (change :: changes).forM install =
          (install change >>= fun _ => changes.forM install : Update Unit) := rfl
      rw [sequence, after_sequence]
      unfold after at first
      cases done : install change registry with
      | error error later =>
          rw [done] at first
          exact first
      | ok result later =>
          rw [done] at first
          have boundaries := first.evolves.boundaries
          have rest := induction first.arena
            (fun other member => members other (others member))
            fun other member => boundaries ▸ beyond other (others member)
          exact first.trans rest

private theorem install_eq_ok {change : Relabelling} {registry later : Registry}
    (done : install change registry = .ok () later) :
    (∀ name, (change.isGenerated = true → change.name ≠ name) →
      later.state? name = registry.state? name) ∧
    (change.isGenerated = true → registry.contains change.name = true →
      later.arena.label? change.name = some change.label) := by
  rcases install_cases change registry with
    ⟨aliased, unchanged⟩ | ⟨generated, succeeded | ⟨-, count, failed⟩⟩
  · cases unchanged.symm.trans done
    exact ⟨fun _ _ => rfl, fun generated => absurd (aliased.symm.trans generated) (by simp)⟩
  · cases succeeded.symm.trans done
    constructor
    · intro name untouched
      exact Arena.state?_redefine_of_ne _ (untouched generated).symm _
    · intro _ inside
      have known : (registry.arena.withLabel change.label).contains change.name = true := inside
      exact Arena.label?_redefine_self known (registry.arena.labels.get?_position change.label)
  · exact absurd (failed.symm.trans done) (by simp)

private theorem installAll_eq_ok {changes : List Relabelling} {registry later : Registry}
    (valid : registry.arena.Valid) (distinct : (changes.map Relabelling.name).Nodup)
    (inside : ∀ change ∈ changes, registry.contains change.name = true)
    (beyond : ∀ change ∈ changes, registry.boundaries.endBuiltins ≤ change.name)
    (done : changes.forM install registry = .ok () later) :
    (∀ name, (∀ change ∈ changes, change.isGenerated = true → change.name ≠ name) →
      later.state? name = registry.state? name) ∧
    ∀ change ∈ changes, change.isGenerated = true →
      later.arena.label? change.name = some change.label := by
  induction changes generalizing registry with
  | nil =>
      cases done
      exact ⟨fun _ _ => rfl, fun change member => absurd member (by simp)⟩
  | cons change changes induction =>
      rcases @sequence_eq_ok _ _ (install change) _ _ _ _ done with
        ⟨_, middle, installed, rest⟩
      have parts := List.nodup_cons.mp distinct
      have others {other : Relabelling} (member : other ∈ changes) :=
        List.mem_cons_of_mem change member
      have given {other : Relabelling} (member : other ∈ change :: changes) :=
        List.mem_map_of_mem (f := Relabelling.label) member
      have first := relabels_install valid (given List.mem_cons_self)
        (beyond change List.mem_cons_self)
      rw [after_of_ok installed] at first
      have boundaries := first.evolves.boundaries
      have stillBeyond : ∀ other ∈ changes, middle.boundaries.endBuiltins ≤ other.name :=
        fun other member => boundaries ▸ beyond other (others member)
      have final := relabels_installAll first.arena
        (fun other member => given (others member)) stillBeyond
      rw [after_of_ok rest] at final
      rcases induction first.arena parts.2
        (fun other member => first.evolves.contains (inside other (others member)))
        stillBeyond rest with ⟨kept, labelled⟩
      rcases install_eq_ok installed with ⟨state, label⟩
      constructor
      · intro name untouched
        have unchanged := state name (untouched change List.mem_cons_self)
        exact (kept name fun other member => untouched other (others member)).trans unchanged
      · intro other member generated
        rcases List.mem_cons.mp member with rfl | later
        · -- No later change is about the same name, so the label stays.
          have finalState := kept other.name fun another member _ same =>
            parts.1 (same ▸ List.mem_map_of_mem member)
          have labelled := label generated (inside other List.mem_cons_self)
          exact (final.evolves.arenaLabel?_eq first.arena finalState).trans labelled
        · exact labelled other later generated

/-! ## The whole assignment -/

/-- What an assignment of final labels has done. -/
structure Assigned (registry : Registry) (used : List Name) (illegal : List Label)
    (changes : List Relabelling) (later : Registry) : Prop where
  ascending : Ascending used
  inside : ∀ name ∈ used, registry.contains name = true
  labelled : ∀ name ∈ used, registry.ownsLabel name = true →
    ∃ label, registry.label? name = some label
  names : changes.map Relabelling.name = registry.targets used illegal
  chosen : Chosen registry (registry.takenLabels used) illegal changes
  relabels : Relabels (changes.map Relabelling.label) registry later
  kept : ∀ name, name ∉ registry.targets used illegal →
    later.state? name = registry.state? name
  given : ∀ change ∈ changes, later.arena.label? change.name = some change.label

theorem assignLabels_eq (used : List Name) (illegal : List Label) (registry : Registry) :
    assignLabels used illegal registry =
      match registry.chooseLabels used illegal with
      | .ok progress =>
          (progress.changes.forM install >>= fun _ => pure progress.changes : Update _)
            progress.registry
      | .error error => .error error registry := by
  rw [assignLabels, get_sequence]
  cases registry.chooseLabels used illegal <;> rfl

namespace Choice

variable {registry : Registry} {used : List Name} {illegal : List Label} {progress : Progress}
  (choice : Choice registry used illegal progress)

include choice

theorem mem_targets {change : Relabelling} (member : change ∈ progress.changes) :
    change.name ∈ registry.targets used illegal :=
  choice.names ▸ List.mem_map_of_mem member

theorem beyond {change : Relabelling} (member : change ∈ progress.changes) :
    registry.boundaries.endBuiltins ≤ change.name :=
  (Registry.mem_targets.mp (choice.mem_targets member)).2.1

theorem relabels : Relabels (progress.changes.map Relabelling.label) registry
    progress.registry where
  frame := choice.follows.frame
  arena := choice.follows.arena
  labels := by
    rw [LabelTable.Grows, choice.follows.labels]
    exact fun _ _ kept => kept
  size := choice.follows.size
  states := by
    intro name
    cases shared : sharedLabel? progress.changes name with
    | none => exact .inl (choice.follows.untouched name shared)
    | some label =>
        rcases exists_aliased shared with ⟨existing, member⟩
        exact .inr ⟨choice.beyond member, label,
          List.mem_map_of_mem (f := Relabelling.label) member,
          choice.follows.shared name label shared⟩

private theorem assigned {later : Registry}
    (done : progress.changes.forM install progress.registry = .ok () later) :
    Assigned registry used illegal progress.changes later := by
  have first := choice.relabels
  have boundaries := first.evolves.boundaries
  have beyond : ∀ change ∈ progress.changes,
      progress.registry.boundaries.endBuiltins ≤ change.name :=
    fun change member => boundaries ▸ choice.beyond member
  have inside : ∀ change ∈ progress.changes, progress.registry.contains change.name = true :=
    fun change member => first.evolves.contains
      (choice.inside change.name (Registry.mem_targets.mp (choice.mem_targets member)).1)
  have distinct : (progress.changes.map Relabelling.name).Nodup :=
    choice.names ▸ choice.ascending.nodup.filter _
  have installed := relabels_installAll choice.follows.arena
    (fun change member => List.mem_map_of_mem member) beyond
  rw [after_of_ok done] at installed
  rcases installAll_eq_ok choice.follows.arena distinct inside beyond done with ⟨kept, given⟩
  refine ⟨choice.ascending, choice.inside, choice.labelled, choice.names,
    choice.follows.chosen, first.trans installed, ?_, ?_⟩
  · intro name absent
    rw [← choice.names] at absent
    refine (kept name fun change member _ same => ?_).trans
      (choice.follows.untouched name (sharedLabel?_eq_none absent))
    exact absent (same ▸ List.mem_map_of_mem member)
  · intro change member
    cases generated : change.isGenerated with
    | true => exact given change member generated
    | false =>
        cases change with
        | generated name label => exact absurd generated (by simp [Relabelling.isGenerated])
        | aliased name existing label =>
            have shared := sharedLabel?_of_aliased distinct member
            have state := kept name fun other present isGenerated same => by
              cases List.inj_on_of_nodup_map distinct present member same
              exact absurd isGenerated (by simp [Relabelling.isGenerated])
            exact (installed.evolves.arenaLabel?_eq choice.follows.arena state).trans
              (choice.follows.shared name label shared)

end Choice

theorem assigned_of_assignLabels {registry later : Registry} {used : List Name}
    {illegal : List Label} {changes : List Relabelling} (valid : registry.arena.Valid)
    (done : assignLabels used illegal registry = .ok changes later) :
    Assigned registry used illegal changes later := by
  rw [assignLabels_eq] at done
  cases chosen : registry.chooseLabels used illegal with
  | error error =>
      rw [chosen] at done
      exact absurd done (by simp)
  | ok progress =>
      rw [chosen] at done
      rcases @sequence_eq_ok _ _ (progress.changes.forM install) _ _ _ _ done with
        ⟨_, middle, installed, finished⟩
      cases finished
      exact (choice_of_chooseLabels valid chosen).assigned installed

theorem assignLabels_of_settled {registry : Registry} {used : List Name} {illegal : List Label}
    (valid : registry.arena.Valid) (ascending : Ascending used)
    (labelled : ∀ name ∈ used, registry.ownsLabel name = true →
      registry.contains name = true ∧ ∃ label, registry.label? name = some label)
    (settled : registry.targets used illegal = []) :
    assignLabels used illegal registry = .ok [] registry := by
  rcases exists_review ascending labelled with ⟨review, reviewed⟩
  rw [assignLabels_eq]
  cases chosen : registry.chooseLabels used illegal with
  | error error =>
      rw [chooseLabels, reviewed] at chosen
      exact absurd chosen (by simp [bind, Except.bind, pure, Except.pure])
  | ok progress =>
      have choice := choice_of_chooseLabels valid chosen
      have none : progress.changes = [] := List.map_eq_nil_iff.mp (choice.names.trans settled)
      simp only [none, choice.follows.registry_eq none]
      rfl

theorem after_assignLabels {registry : Registry} {used : List Name} {illegal : List Label}
    {progress : Progress} (chosen : registry.chooseLabels used illegal = .ok progress) :
    after (assignLabels used illegal) registry =
      after (progress.changes.forM install) progress.registry := by
  have finish := after_sequence (progress.changes.forM install)
    (fun _ => pure progress.changes) progress.registry
  have answer := assignLabels_eq used illegal registry
  rw [chosen] at answer
  rw [after, answer]
  refine finish.trans ?_
  unfold after
  cases progress.changes.forM install progress.registry <;> rfl

/-- An assignment that fails has only changed labels too. -/
theorem relabels_assignLabels {registry : Registry} (used : List Name) (illegal : List Label)
    (valid : registry.arena.Valid) :
    ∃ changes, Chosen registry (registry.takenLabels used) illegal changes ∧
      Relabels (changes.map Relabelling.label) registry
        (after (assignLabels used illegal) registry) := by
  cases chosen : registry.chooseLabels used illegal with
  | error error =>
      rw [after, assignLabels_eq, chosen]
      exact ⟨[], .nil, .refl _ valid⟩
  | ok progress =>
      have choice := choice_of_chooseLabels valid chosen
      have first := choice.relabels
      have boundaries := first.evolves.boundaries
      have installed := relabels_installAll choice.follows.arena
        (fun change member => List.mem_map_of_mem (f := Relabelling.label) member)
        fun change member => boundaries ▸ choice.beyond member
      rw [after_assignLabels chosen]
      exact ⟨progress.changes, choice.follows.chosen, first.trans installed⟩

private theorem state?_installAll {changes : List Relabelling} {registry : Registry} {name : Name}
    (absent : name ∉ changes.map Relabelling.name) :
    (after (changes.forM install) registry).state? name = registry.state? name := by
  induction changes generalizing registry with
  | nil => rfl
  | cons change changes induction =>
      simp only [List.map_cons, List.mem_cons, not_or] at absent
      have sequence : (change :: changes).forM install =
          (install change >>= fun _ => changes.forM install : Update Unit) := rfl
      rw [sequence, after_sequence]
      rcases install_cases change registry with ⟨-, done⟩ | ⟨-, done | ⟨-, count, failed⟩⟩
      · rw [done]
        exact induction absent.2
      · rw [done]
        exact (induction absent.2).trans
          (Arena.state?_redefine_of_ne (registry.arena.withLabel change.label) absent.1 _)
      · rw [failed]

theorem state?_assignLabels {registry : Registry} {used : List Name} {illegal : List Label}
    (valid : registry.arena.Valid) {name : Name}
    (kept : name ∉ registry.targets used illegal) :
    (after (assignLabels used illegal) registry).state? name = registry.state? name := by
  cases chosen : registry.chooseLabels used illegal with
  | error error => rw [after, assignLabels_eq, chosen]
  | ok progress =>
      have choice := choice_of_chooseLabels valid chosen
      rw [← choice.names] at kept
      rw [after_assignLabels chosen, state?_installAll kept]
      exact choice.follows.untouched name (sharedLabel?_eq_none kept)

end NameRegistry.Registry
