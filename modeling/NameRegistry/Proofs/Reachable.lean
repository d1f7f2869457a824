import NameRegistry.Proofs.Assignment

/-! # Registries that can be reached

A compilation starts with a registry that has taken in its dialect, and carries out
commands. A command that fails may leave something behind, and the compilation can
go on from there.
-/

namespace NameRegistry.Registry

inductive Reachable (dialect : Dialect) : Registry → Prop where
  | start {registry : Registry} (built : ofDialect dialect = .ok registry) :
      Reachable dialect registry
  | step {registry : Registry} (command : Command) (earlier : Reachable dialect registry) :
      Reachable dialect (after (perform command) registry)

/-- What is left of commands that are carried out one after the other. -/
def run (commands : List Command) (registry : Registry) : Registry :=
  commands.foldl (fun registry command => after (perform command) registry) registry

/-- Whether a command leaves the names alone that are there. -/
def Command.appends : Command → Bool
  | .assignLabels .. => false
  | _ => true

/-! ## Single commands -/

theorem growth_perform {command : Command} (appends : command.appends = true)
    (registry : Registry) : Growth registry (after (perform command) registry) := by
  cases command with
  | intern label =>
      rw [perform, after_map]
      exact growth_intern label registry
  | derive name =>
      rw [perform, after_map]
      exact growth_derive name registry
  | verbatim arity => exact growth_internVerbatim? arity registry
  | assignLabels => exact absurd appends (by simp [Command.appends])

theorem after_perform_assignLabels (used : List Name) (illegal : List Label)
    (registry : Registry) :
    after (perform (.assignLabels used illegal)) registry =
      after (assignLabels used illegal) registry := by
  have sequence : perform (.assignLabels used illegal) =
      (assignLabels used illegal >>= fun _ => pure none : Update (Option Name)) := rfl
  rw [sequence, after_sequence]
  unfold after
  cases assignLabels used illegal registry <;> rfl

/-- Every command makes a registry grow or changes labels of it. -/
theorem perform_cases (command : Command) {registry : Registry}
    (valid : registry.arena.Valid) :
    Growth registry (after (perform command) registry) ∨
      ∃ used illegal changes,
        Chosen registry (registry.takenLabels used) illegal changes ∧
          Relabels (changes.map Relabelling.label) registry
            (after (perform command) registry) := by
  cases appends : command.appends with
  | true => exact .inl (growth_perform appends registry)
  | false =>
      cases command with
      | assignLabels used illegal =>
          rw [after_perform_assignLabels]
          rcases relabels_assignLabels used illegal valid with ⟨changes, chosen, relabels⟩
          exact .inr ⟨used, illegal, changes, chosen, relabels⟩
      | intern | derive | verbatim => exact absurd appends (by simp [Command.appends])

/-! ## Runs -/

namespace Reachable

variable {dialect : Dialect} {registry : Registry}

theorem run (reachable : Reachable dialect registry) (commands : List Command) :
    Reachable dialect (Registry.run commands registry) := by
  induction commands generalizing registry with
  | nil => exact reachable
  | cons command commands induction => exact induction (reachable.step command)

theorem interned (reachable : Reachable dialect registry) {later : Registry} {label : Label}
    {name : Name} (done : intern label registry = .ok name later) :
    Reachable dialect later := by
  have step := reachable.step (.intern label)
  rw [perform, after_map, after_of_ok done] at step
  exact step

theorem sound (reachable : Reachable dialect registry) :
    registry.dialect = dialect ∧ registry.Sound := by
  induction reachable with
  | start built => exact sound_ofDialect built
  | step command _ induction =>
      rcases induction with ⟨same, sound⟩
      rcases perform_cases command sound.arena with growth | ⟨_, _, _, -, relabels⟩
      · exact ⟨growth.evolves.dialect.trans same, growth.sound sound⟩
      · exact ⟨relabels.evolves.dialect.trans same, relabels.sound sound⟩

/-- A property of the finished registry that no change of a sound registry breaks holds
of every registry that can be reached. -/
theorem keeps {Property : Registry → Prop} (reachable : Reachable dialect registry)
    (start : ∀ registry, ofDialect dialect = .ok registry → Property registry)
    (growth : ∀ registry later, registry.dialect = dialect → registry.Sound →
      Growth registry later → Property registry → Property later)
    (assignment : ∀ registry later used illegal changes, registry.dialect = dialect →
      registry.Sound → Chosen registry (registry.takenLabels used) illegal changes →
      Relabels (changes.map Relabelling.label) registry later → Property registry →
      Property later) : Property registry := by
  induction reachable with
  | start built => exact start _ built
  | step command earlier induction =>
      rcases earlier.sound with ⟨same, sound⟩
      rcases perform_cases command sound.arena with
        grown | ⟨used, illegal, changes, chosen, relabels⟩
      · exact growth _ _ same sound grown induction
      · exact assignment _ _ used illegal changes same sound chosen relabels induction

end Reachable

/-- A sound later state in which types and built-ins are as they were. -/
structure Continuation (registry later : Registry) : Prop extends Evolves registry later where
  sound : later.Sound
  fixed : ∀ name, name < registry.boundaries.endBuiltins →
    later.state? name = registry.state? name

theorem Extension.continuation {registry later : Registry}
    (extension : registry.Extension later) (sound : registry.Sound) :
    registry.Continuation later where
  toEvolves := extension.toEvolves
  sound := extension.sound
  fixed := fun name less => extension.states name (sound.contains_of_lt less)

namespace Continuation

variable {registry middle later : Registry}

private theorem refl (sound : registry.Sound) : registry.Continuation registry where
  toEvolves := .refl registry
  sound := sound
  fixed := fun _ _ => rfl

private theorem trans (first : registry.Continuation middle) (second : middle.Continuation later) :
    registry.Continuation later where
  toEvolves := first.toEvolves.trans second.toEvolves
  sound := second.sound
  fixed := fun name less =>
    (second.fixed name (first.boundaries ▸ less)).trans (first.fixed name less)

theorem perform (command : Command) (sound : registry.Sound) :
    registry.Continuation (after (Registry.perform command) registry) := by
  rcases perform_cases command sound.arena with growth | ⟨_, _, _, -, relabels⟩
  · exact (growth.extension sound).continuation sound
  · exact ⟨relabels.evolves, relabels.sound sound, fun _ less => relabels.state?_of_lt less⟩

theorem run (commands : List Command) (sound : registry.Sound) :
    registry.Continuation (Registry.run commands registry) := by
  induction commands generalizing registry with
  | nil => exact .refl sound
  | cons command commands induction =>
      have first := perform command sound
      exact first.trans (induction first.sound)

theorem label?_eq (continuation : registry.Continuation later) (sound : registry.Sound)
    {name : Name} (less : name < registry.boundaries.endBuiltins) :
    later.label? name = registry.label? name :=
  continuation.toEvolves.label?_eq sound.arena continuation.sound.arena
    (continuation.fixed name less) (sound.contains_of_lt less)

end Continuation

theorem Reachable.continues {dialect : Dialect} {registry : Registry}
    {Property : Registry → Prop} (reachable : Reachable dialect registry)
    (start : ∀ registry, ofDialect dialect = .ok registry → Property registry)
    (continued : ∀ registry later, registry.Sound → registry.Continuation later →
      Property registry → Property later) : Property registry := by
  induction reachable with
  | start built => exact start _ built
  | step command earlier induction =>
      have sound := earlier.sound.2
      exact continued _ _ sound (.perform command sound) induction

/-- What neither the phases behind the built-ins nor any continuation changes holds of every
registry that can be reached. -/
theorem Reachable.holds_of_closed {dialect : Dialect} {registry : Registry}
    {Property : Registry → Prop} (reachable : Reachable dialect registry)
    (closed : ∀ filled, TakesBuiltins dialect dialect.builtinLabels filled → Property filled.closed)
    (predefined : ∀ registry predefined, predefined.verbatim = registry.predefined.verbatim →
      Property registry → Property { registry with predefined })
    (operations : ∀ registry operations, Property registry →
      Property { registry with operations })
    (continued : ∀ registry later, registry.Sound → registry.Continuation later →
      Property registry → Property later) : Property registry := by
  refine reachable.continues (fun finished built => ?_) continued
  refine Registry.holds_of_closed built closed ?_ predefined operations
  intro label _ earlier name later _ sound done
  exact continued earlier later sound
    (((growth_of_intern done).extension sound).continuation sound)

theorem extension_run {commands : List Command} (appends : ∀ command ∈ commands, command.appends)
    {registry : Registry} (sound : registry.Sound) :
    registry.Extension (run commands registry) := by
  induction commands generalizing registry with
  | nil => exact .refl sound
  | cons command commands induction =>
      have growth := growth_perform (appends command List.mem_cons_self) registry
      have rest := induction
        (fun other member => appends other (List.mem_cons_of_mem command member))
        (growth.sound sound)
      exact (growth.extension sound).trans rest

/-! ## Scenarios -/

def succeeds (update : Update α) (registry : Registry) : Bool :=
  match update registry with
  | .ok .. => true
  | .error .. => false

theorem exists_of_succeeds {update : Update α} {registry : Registry}
    (succeeded : succeeds update registry = true) :
    ∃ result later, update registry = .ok result later := by
  unfold succeeds at succeeded
  split at succeeded
  · next result later done => exact ⟨result, later, done⟩
  · exact absurd succeeded (by simp)

def reaches (dialect : Dialect) (commands : List Command) (test : Registry → Bool) : Bool :=
  match ofDialect dialect with
  | .error _ => false
  | .ok start => test (run commands start)

theorem exists_of_reaches {dialect : Dialect} {commands : List Command}
    {test : Registry → Bool} (passed : reaches dialect commands test = true) :
    ∃ start, ofDialect dialect = .ok start ∧ test (run commands start) = true := by
  unfold reaches at passed
  split at passed
  · exact absurd passed (by simp)
  · next start built => exact ⟨start, built, passed⟩

def scenario (dialect : Dialect) (commands : List Command) (used : List Name)
    (illegal : List Label) (test : Registry → List Relabelling → Registry → Bool) : Bool :=
  match ofDialect dialect with
  | .error _ => false
  | .ok start =>
      match assignLabels used illegal (run commands start) with
      | .error _ _ => false
      | .ok changes later => test (run commands start) changes later

theorem exists_of_scenario {dialect : Dialect} {commands : List Command} {used : List Name}
    {illegal : List Label} {test : Registry → List Relabelling → Registry → Bool}
    (passed : scenario dialect commands used illegal test = true) :
    ∃ registry changes later, Reachable dialect registry ∧
      assignLabels used illegal registry = .ok changes later ∧
      test registry changes later = true := by
  unfold scenario at passed
  split at passed
  · exact absurd passed (by simp)
  · next start built =>
      split at passed
      · exact absurd passed (by simp)
      · next changes later done =>
          exact ⟨Registry.run commands start, changes, later, (Reachable.start built).run commands,
            done, passed⟩

end NameRegistry.Registry
