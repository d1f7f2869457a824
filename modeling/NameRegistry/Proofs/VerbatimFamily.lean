import NameRegistry.Proofs.Builtins
import NameRegistry.Proofs.Layout
import NameRegistry.Proofs.Lookup

/-! # The verbatim family

Each arity of the family gets a name when it is first asked for. Unless an assignment
forbids the label of a verbatim built-in, the name stands for its arity ever after.
-/

namespace NameRegistry

/-! ## Definitions of the family -/

namespace Dialect.WellFormed

variable {dialect : Dialect} (wellFormed : dialect.WellFormed) {arity : Arity}
  {definition : Builtin}

include wellFormed

private theorem verbatim?_eq_some_iff :
    dialect.verbatim? arity = some definition ↔
      dialect.builtin? (Verbatim.label arity) = some definition ∧
        arity.parameters < Verbatim.countLimit ∧ arity.returns < Verbatim.countLimit := by
  rw [verbatim?, Option.filter_eq_some_iff]
  refine and_congr_right fun found => ?_
  rw [Builtin.isVerbatim, wellFormed.named _ definition found, Verbatim.ofLabel?_label]
  split <;> simp_all

private theorem arity_of_verbatim? (found : dialect.verbatim? arity = some definition) :
    definition.arity = arity := by
  rcases wellFormed.verbatim?_eq_some_iff.mp found with ⟨defined, fits⟩
  apply wellFormed.arity _ definition arity defined
  rw [Verbatim.ofLabel?_label, if_pos fits]

theorem verbatim?_of_isVerbatim
    (found : dialect.builtin? definition.name = some definition)
    (verbatim : definition.isVerbatim = true) :
    dialect.verbatim? definition.arity = some definition := by
  have read := (wellFormed.isVerbatim_iff found).mp verbatim
  rw [verbatim?, Verbatim.label_of_ofLabel? read, found]
  exact Option.filter_eq_some_iff.mpr ⟨rfl, verbatim⟩

end Dialect.WellFormed

namespace Registry

/-! ## Names of the family -/

/-- What is known of the verbatim built-in of an arity. -/
structure VerbatimName (registry : Registry) (arity : Arity) (name : Name) : Prop where
  derived : registry.state? name = some (.derived registry.predefined.verbatim)
  isVerbatim : registry.isVerbatim name = true
  isBuiltin : registry.isBuiltin name = true
  label : registry.label? name = some (Verbatim.label arity)
  record : ∃ record, registry.builtin? name = some record ∧ record.name = name ∧
    record.parameters.length = arity.parameters ∧ record.returns.length = arity.returns ∧
    registry.dialect.verbatim? arity = some record.definition

private structure Intact (registry : Registry) (name : Name) : Prop where
  derived : registry.state? name = some (.derived registry.predefined.verbatim)
  recorded : ∃ definition, registry.builtin? name = some (registry.nameBuiltin name definition)

private def FamilyIntact (registry : Registry) : Prop :=
  ∀ arity name, (arity, name) ∈ registry.instances → registry.Intact name

theorem Evolves.nameBuiltin_eq {registry later : Registry} (evolves : registry.Evolves later)
    (name : Name) (definition : Builtin) :
    later.nameBuiltin name definition = registry.nameBuiltin name definition := by
  have types : later.typeName = registry.typeName := by
    funext label
    simp only [typeName, findType?, evolves.types]
  simp only [nameBuiltin, types]

private theorem Intact.evolves {registry later : Registry} {name : Name}
    (intact : registry.Intact name) (evolves : registry.Evolves later)
    (state : later.state? name = registry.state? name) :
    later.Intact name where
  derived := by rw [state, evolves.predefined, intact.derived]
  recorded := by
    rcases intact.recorded with ⟨definition, known⟩
    refine ⟨definition, ?_⟩
    rw [evolves.builtin? name (Arena.contains_of_state? intact.derived),
      evolves.nameBuiltin_eq, known]

namespace Intact

variable {registry : Registry} {arity : Arity} {name : Name} (intact : registry.Intact name)
  (regular : registry.Regular)

include intact regular

private theorem isVerbatim : registry.isVerbatim name = true :=
  decide_eq_true (regular.sound.arena.base?_derived intact.derived)

private theorem isBuiltin : registry.isBuiltin name = true := by
  have base : registry.base? name = some registry.predefined.verbatim :=
    regular.sound.arena.base?_derived intact.derived
  rw [Registry.isBuiltin, base]
  exact regular.laidOut.containsBuiltin_verbatim

private theorem verbatimName (wellFormed : registry.dialect.WellFormed)
    (member : (arity, name) ∈ registry.instances) : registry.VerbatimName arity name where
  derived := intact.derived
  isVerbatim := intact.isVerbatim regular
  isBuiltin := intact.isBuiltin regular
  label := regular.separated.label?_of_instance regular.sound wellFormed member
    (intact.isVerbatim regular)
  record := by
    rcases intact.recorded with ⟨definition, known⟩
    rcases (regular.separated.made arity name member).recorded with
      ⟨record, again, verbatim, rfl, found⟩
    cases known.symm.trans again
    exact ⟨_, known, rfl, List.length_map _, List.length_map _,
      wellFormed.verbatim?_of_isVerbatim found verbatim⟩

end Intact

/-! ## Commands that spare the family -/

/-- A command that does not forbid the label of a verbatim built-in. -/
def Command.Spares (dialect : Dialect) : Command → Prop
  | .assignLabels _ illegal => ∀ label ∈ illegal, dialect.Ordinary label
  | _ => True

private theorem Growth.familyIntact {registry later : Registry} (growth : Growth registry later)
    (regular : registry.Regular) (intact : registry.FamilyIntact) : later.FamilyIntact := by
  have old : ∀ arity name, (arity, name) ∈ registry.instances → later.Intact name := by
    intro arity name member
    have inside := regular.sound.instances arity name member
    exact (intact arity name member).evolves growth.evolves (growth.state? inside)
  cases growth with
  | same | interned | defined | derived => exact old
  | minted label definition base found verbatim new linked =>
      intro arity name member
      rcases List.mem_append.mp member with before | added
      · exact old arity name before
      · cases List.mem_singleton.mp added
        cases linked.symm.trans (regular.separated.base?_verbatim regular.sound)
        refine ⟨?_, definition, ?_⟩
        · rw [state?_minted, if_pos rfl]
          rfl
        · rw [builtin?_minted, if_pos rfl]
          rfl

private theorem Intact.not_target {registry : Registry} {arity : Arity} {name : Name}
    (intact : registry.Intact name) (regular : registry.Regular)
    (wellFormed : registry.dialect.WellFormed) (member : (arity, name) ∈ registry.instances)
    {used : List Name} {illegal : List Label}
    (spared : ∀ label ∈ illegal, registry.dialect.Ordinary label) :
    name ∉ registry.targets used illegal := by
  intro target
  have verbatim := intact.isVerbatim regular
  rcases Separated.label?_of_made regular.sound (regular.separated.made arity name member) verbatim
    with ⟨definition, labelled, isVerbatim, -, found⟩
  have legal : definition.name ∉ illegal := by
    intro forbidden
    have ordinary := spared _ forbidden definition found
    exact absurd (isVerbatim.symm.trans ordinary) (by simp)
  -- No other name has the label, so only an illegal label could make the name clash.
  have fits : registry.clashes used illegal name = false :=
    regular.separated.not_clashes_of_instance regular.sound wellFormed member verbatim labelled
      legal
  have needs := (mem_targets.mp target).2.2
  simp [needsLabel, ownsLabel, verbatim, fits] at needs

private theorem FamilyIntact.perform {registry : Registry} {command : Command}
    (intact : registry.FamilyIntact) (regular : registry.Regular)
    (wellFormed : registry.dialect.WellFormed) (spared : command.Spares registry.dialect) :
    (after (Registry.perform command) registry).FamilyIntact := by
  cases appends : command.appends with
  | true => exact (growth_perform appends registry).familyIntact regular intact
  | false =>
      cases command with
      | intern | derive | verbatim => exact absurd appends (by simp [Command.appends])
      | assignLabels used illegal =>
          rw [after_perform_assignLabels]
          have valid := regular.sound.arena
          rcases relabels_assignLabels used illegal valid with ⟨changes, -, relabels⟩
          intro arity name member
          rw [relabels.frame] at member
          have untouched : name ∉ registry.targets used illegal :=
            (intact arity name member).not_target regular wellFormed member spared
          exact (intact arity name member).evolves relabels.evolves
            (state?_assignLabels valid untouched)

private theorem FamilyIntact.run {dialect : Dialect} {registry : Registry} {commands : List Command}
    (wellFormed : dialect.WellFormed) (reachable : Reachable dialect registry)
    (intact : registry.FamilyIntact) (spared : ∀ command ∈ commands, command.Spares dialect) :
    (Registry.run commands registry).FamilyIntact := by
  induction commands generalizing registry with
  | nil => exact intact
  | cons command commands induction =>
      have regular := reachable.regular wellFormed.toUnambiguous
      have next : (after (Registry.perform command) registry).FamilyIntact := by
        apply intact.perform regular
        · rwa [reachable.sound.1]
        · rw [reachable.sound.1]
          exact spared command List.mem_cons_self
      exact induction (reachable.step command) next
        fun other member => spared other (List.mem_cons_of_mem command member)

private theorem familyIntact_ofDialect {dialect : Dialect} {registry : Registry}
    (unambiguous : dialect.Unambiguous) (built : ofDialect dialect = .ok registry) :
    registry.FamilyIntact := by
  intro arity name member
  rw [(unminted_ofDialect unambiguous built).instances] at member
  exact absurd member List.not_mem_nil

private theorem instances_subset_perform (command : Command) {registry : Registry}
    (sound : registry.Sound) :
    registry.instances ⊆ (after (Registry.perform command) registry).instances := by
  rcases perform_cases command sound.arena with growth | ⟨_, _, _, -, relabels⟩
  · generalize after (Registry.perform command) registry = later at growth
    cases growth with
    | same | interned | defined | derived => exact List.Subset.refl _
    | minted => exact List.subset_append_left _ _
  · rw [relabels.frame]
    exact List.Subset.refl _

private theorem instances_subset_run {registry : Registry} (commands : List Command)
    (sound : registry.Sound) :
    registry.instances ⊆ (Registry.run commands registry).instances := by
  induction commands generalizing registry with
  | nil => exact List.Subset.refl _
  | cons command commands induction =>
      exact List.Subset.trans (instances_subset_perform command sound)
        (induction (Continuation.perform command sound).sound)

/-! ## Asking for a member of the family -/

theorem internVerbatim?_of_ok {registry later : Registry} {arity : Arity} {definition : Builtin}
    {name : Name} (found : registry.dialect.verbatim? arity = some definition)
    (done : verbatimInstance definition registry = .ok name later) :
    internVerbatim? arity registry = .ok (some name) later := by
  rw [internVerbatim?_eq, found]
  simp only [Functor.map, EStateM.map, done]

private theorem internVerbatim?_of_error {registry later : Registry} {arity : Arity}
    {definition : Builtin} {error : NameError}
    (found : registry.dialect.verbatim? arity = some definition)
    (failed : verbatimInstance definition registry = .error error later) :
    internVerbatim? arity registry = .error error later := by
  rw [internVerbatim?_eq, found]
  simp only [Functor.map, EStateM.map, failed]

private theorem intern_label {registry : Registry} {arity : Arity} {definition : Builtin}
    (found : registry.dialect.verbatim? arity = some definition) :
    intern (Verbatim.label arity) registry = verbatimInstance definition registry := by
  rcases Option.filter_eq_some_iff.mp found with ⟨defined, verbatim⟩
  exact intern_verbatim defined verbatim

private theorem verbatimInstance_outcome {registry : Registry} (regular : registry.Regular)
    (definition : Builtin) :
    (∃ name later, verbatimInstance definition registry = .ok name later ∧
      (definition.arity, name) ∈ later.instances ∧
      ((definition.arity, name) ∈ registry.instances ∨ name = registry.arena.next)) ∨
    registry.instances.lookup definition.arity = none ∧ Arena.capacity ≤ registry.size ∧
      ∃ count, verbatimInstance definition registry = .error (.arenaFull count) registry := by
  rcases verbatimInstance_cases definition registry with
    ⟨name, made, done⟩ | ⟨new, ⟨base, -, done⟩ | ⟨error, cause, failed⟩⟩
  · have member := Keyed.mem_of_lookup made
    exact .inl ⟨name, registry, done, member, .inl member⟩
  · have member : (definition.arity, registry.arena.next) ∈
        (registry.minted definition base).instances :=
      List.mem_append_right _ (List.mem_singleton_self _)
    exact .inl ⟨_, _, done, member, .inr rfl⟩
  · rcases cause with outside | ⟨full, count, rfl⟩
    · have linked := regular.separated.base?_verbatim regular.sound
      exact absurd (linked.symm.trans outside) (by simp)
    · exact .inr ⟨new, full, count, failed⟩

private theorem verbatimInstance_of_mem {registry : Registry} (separated : registry.Separated)
    {definition : Builtin} {name : Name} (member : (definition.arity, name) ∈ registry.instances) :
    verbatimInstance definition registry = .ok name registry := by
  rcases verbatimInstance_cases definition registry with ⟨known, made, done⟩ | ⟨new, -⟩
  · cases separated.unique _ known name (Keyed.mem_of_lookup made) member
    exact done
  · exact absurd (List.lookup_eq_none_iff.mp new _ member) (by simp)

private theorem Separated.arity_unique {registry : Registry} (separated : registry.Separated)
    {left right : Arity} {name : Name} (isLeft : (left, name) ∈ registry.instances)
    (isRight : (right, name) ∈ registry.instances) : left = right := by
  rcases (separated.made left name isLeft).recorded with ⟨record, known, -, rfl, -⟩
  rcases (separated.made right name isRight).recorded with ⟨again, same, -, rfl, -⟩
  cases known.symm.trans same
  rfl

private theorem origin_of_request {registry later : Registry} (regular : registry.Regular)
    (wellFormed : registry.dialect.WellFormed) {arity : Arity} {name : Name}
    (requested : internVerbatim? arity registry = .ok (some name) later) :
    (arity, name) ∈ registry.instances ∨ name = registry.arena.next := by
  cases found : registry.dialect.verbatim? arity with
  | none =>
      rw [internVerbatim?_eq, found] at requested
      cases requested
  | some definition =>
      cases wellFormed.arity_of_verbatim? found
      rcases verbatimInstance_outcome regular definition with
        ⟨again, after, made, -, origin⟩ | ⟨-, -, count, failed⟩
      · cases (internVerbatim?_of_ok found made).symm.trans requested
        exact origin
      · exact absurd ((internVerbatim?_of_error found failed).symm.trans requested) (by simp)

/-- A name stands for an arity of the family: it is what the arity and its label lead to,
and no other arity leads to it. -/
structure StandsFor (registry : Registry) (name : Name) (arity : Arity) : Prop where
  known : registry.VerbatimName arity name
  requested : internVerbatim? arity registry = .ok (some name) registry
  interned : intern (Verbatim.label arity) registry = .ok name registry
  apart : ∀ other second later, other ≠ arity →
    internVerbatim? other registry = .ok (some second) later → second ≠ name

private theorem standsFor_of_instance {registry : Registry} (regular : registry.Regular)
    (wellFormed : registry.dialect.WellFormed) (intact : registry.FamilyIntact) {arity : Arity}
    {name : Name} (member : (arity, name) ∈ registry.instances) :
    registry.StandsFor name arity := by
  have known := (intact arity name member).verbatimName regular wellFormed member
  rcases known.record with ⟨record, -, -, -, -, found⟩
  have done : verbatimInstance record.definition registry = .ok name registry := by
    apply verbatimInstance_of_mem regular.separated
    rwa [wellFormed.arity_of_verbatim? found]
  refine ⟨known, internVerbatim?_of_ok found done, (intern_label found).trans done, ?_⟩
  intro other second later different requested same
  subst same
  rcases origin_of_request regular wellFormed requested with old | new
  · exact different (regular.separated.arity_unique old member)
  · exact Arena.ne_next (regular.sound.instances arity second member) new

/-! ## The guarantee -/

/-- In no state does a defined name carry the label of a verbatim built-in. As long as no
assignment forbids such a label, an arity has a verbatim built-in exactly if the dialect
defines its label, and a name that either of them has led to stands for the arity from then
on. Only the first request for an arity can find the arena full. -/
theorem verbatim_family_memoized {dialect : Dialect} {start : Registry} {commands : List Command}
    (wellFormed : dialect.WellFormed) (built : ofDialect dialect = .ok start)
    (spared : ∀ command ∈ commands, command.Spares dialect) :
    (∀ registry, Reachable dialect registry →
      ∀ name label, registry.Carries name label → dialect.Ordinary label) ∧
    ∀ arity, arity.parameters < Verbatim.countLimit → arity.returns < Verbatim.countLimit →
      (dialect.builtin? (Verbatim.label arity) = none →
        internVerbatim? arity (run commands start) = .ok none (run commands start)) ∧
      ∀ definition, dialect.builtin? (Verbatim.label arity) = some definition →
        (∃ name later,
          internVerbatim? arity (run commands start) = .ok (some name) later ∧
          intern (Verbatim.label arity) (run commands start) = .ok name later ∧
          ∀ further, (∀ command ∈ further, command.Spares dialect) →
            (run further later).StandsFor name arity) ∨
        (run commands start).instances.lookup arity = none ∧
          Arena.capacity ≤ (run commands start).size ∧ ∃ count,
            internVerbatim? arity (run commands start) =
              .error (.arenaFull count) (run commands start) ∧
            intern (Verbatim.label arity) (run commands start) =
              .error (.arenaFull count) (run commands start) := by
  have unambiguous := wellFormed.toUnambiguous
  refine ⟨?_, fun arity parameters returns => ⟨?_, ?_⟩⟩
  · intro registry reachable name label carries
    have regular := reachable.regular unambiguous
    rw [← reachable.sound.1]
    exact regular.separated.carried name label ((carries_iff regular.sound.arena).mp carries)
  · intro undefined
    have reachable := (Reachable.start built).run commands
    have none : dialect.verbatim? arity = none := by
      rw [Dialect.verbatim?, undefined, Option.filter_none]
    rw [internVerbatim?_eq, reachable.sound.1, none]
  · intro definition defined
    have begun := Reachable.start built
    have reachable := begun.run commands
    have intact := (familyIntact_ofDialect unambiguous built).run wellFormed begun spared
    have regular := reachable.regular unambiguous
    have found := wellFormed.verbatim?_eq_some_iff.mpr ⟨defined, parameters, returns⟩
    cases wellFormed.arity_of_verbatim? found
    rw [← reachable.sound.1] at found
    have asked := intern_label found
    rcases verbatimInstance_outcome regular definition with
      ⟨name, later, made, member, -⟩ | ⟨new, full, count, failed⟩
    · have requested := internVerbatim?_of_ok found made
      have step := reachable.step (.verbatim definition.arity)
      have stillIntact := @FamilyIntact.perform _ (.verbatim definition.arity) intact regular
        (by rwa [reachable.sound.1]) trivial
      rw [perform, after_of_ok requested] at step stillIntact
      refine .inl ⟨name, later, requested, asked.trans made, fun further furtherSpared => ?_⟩
      have reached := step.run further
      apply standsFor_of_instance (reached.regular unambiguous) _
        (stillIntact.run wellFormed step furtherSpared)
        (instances_subset_run further step.sound.2 member)
      rwa [reached.sound.1]
    · exact .inr ⟨new, full, count, internVerbatim?_of_error found failed, asked.trans failed⟩

/-- The arity is asked for after another one, and its name withstands an assignment in which
it is used. -/
theorem verbatim_family_of_two_arities :
    ∃ start name later, ofDialect .evm = .ok start ∧
      internVerbatim? ⟨2, 1⟩ (run [.intern "a", .verbatim ⟨1, 1⟩] start) =
        .ok (some name) later ∧
      (run [.assignLabels [⟨37⟩, ⟨38⟩, ⟨39⟩] ["a"]] later).StandsFor name ⟨2, 1⟩ := by
  have passed : reaches .evm [.intern "a", .verbatim ⟨1, 1⟩]
      (succeeds (internVerbatim? ⟨2, 1⟩)) = true := by
    decide +kernel
  rcases exists_of_reaches passed with ⟨start, built, succeeded⟩
  have spared : ∀ command ∈ [Command.intern "a", .verbatim ⟨1, 1⟩],
      command.Spares .evm := by
    simp [Command.Spares]
  have further : ∀ command ∈ [Command.assignLabels [⟨37⟩, ⟨38⟩, ⟨39⟩] ["a"]],
      command.Spares .evm := by
    have ordinary : Dialect.evm.Ordinary "a" :=
      Dialect.wellFormed_evm.toUnambiguous.ordinary_of_unread (by decide +kernel)
    simpa [Command.Spares] using ordinary
  have family := (verbatim_family_memoized Dialect.wellFormed_evm built spared).2 ⟨2, 1⟩
    (by decide) (by decide)
  rcases family.2 (.verbatim ⟨2, 1⟩) (by decide +kernel) with
    ⟨name, later, requested, -, stands⟩ | ⟨-, -, count, failed, -⟩
  · exact ⟨start, name, later, built, requested, stands _ further⟩
  · rcases exists_of_succeeds succeeded with ⟨result, later, done⟩
    exact absurd (failed.symm.trans done) (by simp)

end Registry

end NameRegistry
