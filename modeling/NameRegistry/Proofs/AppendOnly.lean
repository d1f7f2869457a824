import NameRegistry.Proofs.Bounds
import NameRegistry.Proofs.Builtins
import NameRegistry.Proofs.SharedLabels

/-! # New names leave the old ones alone

Interning, deriving and asking for a verbatim built-in find a name that is there or append
one. Labels may outnumber names by then, so that the new name comes to stand at the position of
a label that is older. Even so every question about an old name, and the lookup of every label
that is not the one being interned, is answered as before.
-/

namespace NameRegistry.Registry

/-! ## What is answered -/

/-- A name that is there is answered and nothing changes, or the next name is answered and
appended, or there is no room for it. -/
inductive Appended (registry : Registry) :
    EStateM.Result NameError Registry (Option Name) → Prop where
  | known (name : Name) (inside : registry.contains name = true) :
      Appended registry (.ok (some name) registry)
  | fresh (later : Registry) (size : later.size = registry.size + 1) :
      Appended registry (.ok (some ⟨registry.size⟩) later)
  | full (count : Nat) (later : Registry) (size : later.size = registry.size)
      (noRoom : Arena.capacity ≤ registry.size ∨
        Arena.labelCapacity ≤ registry.arena.labels.size) :
      Appended registry (.error (.arenaFull count) later)

/-- The command asks for a verbatim built-in that the dialect does not have. -/
def Command.Lacking (dialect : Dialect) : Command → Prop
  | .verbatim arity => dialect.verbatim? arity = none
  | _ => False

namespace Consistent

variable {registry : Registry} (consistent : registry.Consistent)

include consistent

private theorem appended_derive {name : Name} (inside : registry.contains name = true) :
    registry.Appended ((some <$> derive name : Update _) registry) := by
  simp only [Functor.map, EStateM.map]
  rcases consistent.derive_of_contains inside with ⟨base, -, done⟩ | ⟨full, count, failed⟩
  · rw [done]
    exact .fresh _ (Arena.size_append _ _)
  · rw [failed]
    exact .full count registry rfl (.inl full)

private theorem appended_verbatimInstance (definition : Builtin) :
    registry.Appended ((some <$> verbatimInstance definition : Update _) registry) := by
  simp only [Functor.map, EStateM.map]
  rcases verbatimInstance_cases definition registry with
    ⟨name, made, done⟩ | ⟨-, ⟨base, -, done⟩ | ⟨error, outside | ⟨full, count, rfl⟩, failed⟩⟩
  · rw [done]
    exact .known name (consistent.instances _ name (Keyed.mem_of_lookup made))
  · rw [done]
    exact .fresh _ (Arena.size_append _ _)
  · rcases consistent.arena.exists_base? consistent.verbatim with ⟨base, linked⟩
    exact absurd (linked.symm.trans outside) (by simp)
  · rw [failed]
    exact .full count registry rfl (.inl full)

private theorem appended_intern (label : Label) :
    registry.Appended ((some <$> intern label : Update _) registry) := by
  rcases registry.dialect.ordinary_or_verbatim label with
    ordinary | ⟨definition, found, verbatim⟩
  · simp only [Functor.map, EStateM.map]
    rw [intern_ordinary ordinary]
    cases present : registry.present? label with
    | some name => exact .known name (consistent.contains_present present)
    | none =>
        simp only
        rcases onArena_define_cases label registry with
          done | ⟨full, count, later, left, failed⟩
        · rw [done]
          exact .fresh _ (Arena.size_append (registry.arena.withLabel label) _)
        · rw [failed]
          refine .full count later ?_ full
          rcases left with rfl | rfl <;> rfl
  · have instead := consistent.appended_verbatimInstance definition
    simp only [Functor.map, EStateM.map] at instead ⊢
    rw [intern_verbatim found verbatim]
    exact instead

private theorem appended_perform {command : Command} (appends : command.appends = true)
    (within : command.Within registry) (has : ¬command.Lacking registry.dialect) :
    registry.Appended (perform command registry) := by
  cases command with
  | intern label => exact consistent.appended_intern label
  | derive name => exact consistent.appended_derive within
  | verbatim arity =>
      rw [perform, internVerbatim?_eq]
      cases found : registry.dialect.verbatim? arity with
      | none => exact absurd found has
      | some definition => exact consistent.appended_verbatimInstance definition
  | assignLabels => exact absurd appends (by simp [Command.appends])

end Consistent

private theorem perform_of_lacking {registry : Registry} {command : Command}
    (lacking : command.Lacking registry.dialect) :
    perform command registry = .ok none registry := by
  cases command with
  | verbatim arity =>
      have absent : registry.dialect.verbatim? arity = none := lacking
      rw [perform, internVerbatim?_eq, absent]
  | intern | derive | assignLabels => exact absurd lacking (by simp [Command.Lacking])

/-! ## What is left as it was -/

/-- All that can be asked about a name is answered as before. -/
structure Untouched (registry later : Registry) (name : Name) : Prop
    extends Unaltered registry later name where
  state : later.state? name = registry.state? name
  base : later.base? name = registry.base? name
  baseLabel : later.baseLabel? name = registry.baseLabel? name
  isType : later.isType name = registry.isType name

private theorem Extension.untouched {registry later : Registry}
    (extension : registry.Extension later)
    (valid : registry.arena.Valid) {name : Name} (inside : registry.contains name = true) :
    registry.Untouched later name := by
  have evolves := extension.toEvolves
  have laterValid := extension.sound.arena
  have state := extension.states name inside
  have base := base?_congr valid laterValid state
  have baseLabel : later.baseLabel? name = registry.baseLabel? name := by
    rcases valid.exists_base? inside with ⟨origin, linked⟩
    rcases valid.base?_eq_some linked with ⟨position, defined, -⟩
    have originState := extension.states origin (Arena.contains_of_state? defined)
    have laterLinked : later.arena.base? name = some origin := base.trans linked
    simp only [baseLabel?, Arena.baseLabel?, linked, laterLinked, Option.bind_some]
    exact evolves.arenaLabel?_eq valid originState
  exact {
    label := extension.label?_eq valid inside
    isBuiltin := evolves.isBuiltin_eq valid laterValid state
    isVerbatim := evolves.isVerbatim_eq valid laterValid state
    record := evolves.builtin? name inside
    state := state
    base := base
    baseLabel := baseLabel
    isType := by simp only [isType, base, evolves.boundaries] }

private theorem label?_after_perform_iff {registry : Registry} (valid : registry.arena.Valid)
    {command : Command} (appends : command.appends = true) {label : Label}
    (other : command ≠ .intern label) (name : Name) :
    (after (perform command) registry).arena.label? name = some label ↔
      registry.arena.label? name = some label := by
  cases command with
  | intern text =>
      rw [perform, after_map]
      rcases label?_after_intern_cases text valid with same | ⟨-, -, done⟩
      · rw [same]
      · rw [after_of_ok done, label?_defined registry name valid]
        split
        · next isNext =>
            have different : text ≠ label := fun same => other (congrArg Command.intern same)
            have unlabelled : registry.arena.label? name ≠ some label := fun labelled =>
              Arena.ne_next (Arena.contains_of_label? labelled) isNext
            simp [different, unlabelled]
        · rfl
  | derive => rw [perform, after_map, label?_after_derive]
  | verbatim => rw [perform, label?_after_internVerbatim?]
  | assignLabels => exact absurd appends (by simp [Command.appends])

private theorem find?_after_perform {registry : Registry} (sound : registry.Sound)
    {command : Command} (appends : command.appends = true) {label : Label}
    (other : command ≠ .intern label) :
    (after (perform command) registry).find? label = registry.find? label := by
  have growth := growth_perform appends registry
  exact find?_congr sound.arena (growth.sound sound).arena growth.evolves.labels
    (label?_after_perform_iff sound.arena appends other)

/-! ## The guarantee -/

/-- A command that appends answers none, for a verbatim built-in that the dialect does not have,
or a name that is there, and changes nothing; or it answers the one name that it appends. Every
name that was there before, and the lookup of every label but the one interned, is answered
for as before, even if the command fails. -/
theorem names_append_only {dialect : Dialect} {registry : Registry} {command : Command}
    (reachable : Reachable dialect registry) (appends : command.appends = true)
    (within : command.Within registry) :
    (command.Lacking dialect → perform command registry = .ok none registry) ∧
    (¬command.Lacking dialect → registry.Appended (perform command registry)) ∧
    (∀ name, registry.contains name = true →
      registry.Untouched (after (perform command) registry) name) ∧
    ∀ label, command ≠ .intern label →
      (after (perform command) registry).find? label = registry.find? label := by
  rcases reachable.sound with ⟨rfl, sound⟩
  have extension := (growth_perform appends registry).extension sound
  exact ⟨perform_of_lacking, sound.appended_perform appends within,
    fun _ inside => extension.untouched sound.arena inside,
    fun _ => find?_after_perform sound appends⟩

/-- There are more labels than names, and the new name comes to stand at the position of a label
that an older name carries. -/
theorem names_append_only_after_relabelling :
    ∃ registry, Reachable .evm registry ∧ registry.arena.labels.get? ⟨registry.size⟩ = some "a_2" ∧
      registry.Appended (perform (.intern "b") registry) ∧
      registry.Untouched (after (perform (.intern "b")) registry) ⟨38⟩ ∧
      (after (perform (.intern "b")) registry).find? "a_2" = some ⟨38⟩ := by
  have passed : reaches .evm [.intern "a", .derive ⟨37⟩, .assignLabels [⟨37⟩, ⟨38⟩] ["a"]]
      (fun registry => decide (registry.contains ⟨38⟩ = true ∧
        registry.arena.labels.get? ⟨registry.size⟩ = some "a_2" ∧
        registry.find? "a_2" = some ⟨38⟩)) = true := by
    decide +kernel
  rcases exists_of_reaches passed with ⟨start, built, tested⟩
  rcases of_decide_eq_true tested with ⟨inside, behind, found⟩
  have reachable := (Reachable.start built).run
    [.intern "a", .derive ⟨37⟩, .assignLabels [⟨37⟩, ⟨38⟩] ["a"]]
  have within : Command.Within (run [.intern "a", .derive ⟨37⟩,
      .assignLabels [⟨37⟩, ⟨38⟩] ["a"]] start) (.intern "b") := trivial
  rcases names_append_only reachable rfl within with ⟨-, appended, untouched, lookup⟩
  exact ⟨_, reachable, behind, appended (by simp [Command.Lacking]), untouched ⟨38⟩ inside,
    (lookup "a_2" (by decide)).trans found⟩

end NameRegistry.Registry
