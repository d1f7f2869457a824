import NameRegistry.Proofs.Growth

/-! # What a registry keeps

No change touches the settings of a registry, the positions of its labels or the
built-in of a name that is there. A name whose state is kept is therefore
labelled and classified as before.
-/

namespace NameRegistry.Registry

/-! ## Consistency -/

structure Consistent (registry : Registry) : Prop where
  arena : registry.arena.Valid
  root : registry.arena.label? .empty = some ""
  verbatim : registry.contains registry.predefined.verbatim = true
  builtins : registry.boundaries.endBuiltins.index ≤ registry.size
  instances : ∀ arity name, (arity, name) ∈ registry.instances → registry.contains name = true

/-- What holds once a registry has taken in its dialect. -/
structure Sound (registry : Registry) : Prop extends Consistent registry where
  base : registry.predefined.verbatim < registry.boundaries.endBuiltins

theorem Consistent.contains_of_lt {registry : Registry} (consistent : registry.Consistent)
    {name : Name} (less : name < registry.boundaries.endBuiltins) :
    registry.contains name = true :=
  Arena.contains_of_lt (Nat.lt_of_lt_of_le less consistent.builtins)

/-! ## Evolution -/

structure Evolves (registry later : Registry) : Prop where
  dialect : later.dialect = registry.dialect
  boundaries : later.boundaries = registry.boundaries
  types : later.types = registry.types
  predefined : later.predefined = registry.predefined
  operations : later.operations = registry.operations
  size : registry.size ≤ later.size
  labels : registry.arena.labels.Grows later.arena.labels
  builtin? : ∀ name, registry.contains name = true → later.builtin? name = registry.builtin? name

namespace Evolves

theorem refl (registry : Registry) : registry.Evolves registry where
  dialect := rfl
  boundaries := rfl
  types := rfl
  predefined := rfl
  operations := rfl
  size := Nat.le_refl _
  labels := .refl _
  builtin? := fun _ _ => rfl

variable {first second third : Registry}

theorem contains (evolves : first.Evolves second) {name : Name}
    (inside : first.contains name = true) : second.contains name = true :=
  Arena.contains_of_lt (Nat.lt_of_lt_of_le (Arena.lt_size inside) evolves.size)

theorem trans (earlier : first.Evolves second) (later : second.Evolves third) :
    first.Evolves third where
  dialect := later.dialect.trans earlier.dialect
  boundaries := later.boundaries.trans earlier.boundaries
  types := later.types.trans earlier.types
  predefined := later.predefined.trans earlier.predefined
  operations := later.operations.trans earlier.operations
  size := Nat.le_trans earlier.size later.size
  labels := earlier.labels.trans later.labels
  builtin? := fun name inside =>
    (later.builtin? name (earlier.contains inside)).trans (earlier.builtin? name inside)

end Evolves

/-! ## Names with the same state -/

section SameState

variable {registry later : Registry} {name : Name}

private theorem isDerived_congr (state : later.state? name = registry.state? name) :
    later.isDerived name = registry.isDerived name := by
  simp only [isDerived, state]

theorem base?_congr (valid : registry.arena.Valid) (laterValid : later.arena.Valid)
    (state : later.state? name = registry.state? name) :
    later.base? name = registry.base? name := by
  have same : later.arena.state? name = registry.arena.state? name := state
  cases known : registry.arena.state? name with
  | none =>
      exact (Arena.base?_of_unknown (same.trans known)).trans (Arena.base?_of_unknown known).symm
  | some kind =>
      cases kind with
      | defined position =>
          exact (Arena.base?_of_defined (same.trans known)).trans
            (Arena.base?_of_defined known).symm
      | derived base =>
          exact (laterValid.base?_derived (same.trans known)).trans
            (valid.base?_derived known).symm

variable (evolves : registry.Evolves later) (valid : registry.arena.Valid)
  (laterValid : later.arena.Valid) (state : later.state? name = registry.state? name)

include evolves valid laterValid state

theorem Evolves.isVerbatim_eq : later.isVerbatim name = registry.isVerbatim name := by
  simp only [isVerbatim, base?_congr valid laterValid state, evolves.predefined]

theorem Evolves.isBuiltin_eq : later.isBuiltin name = registry.isBuiltin name := by
  simp only [isBuiltin, base?_congr valid laterValid state, evolves.boundaries]

theorem Evolves.ownsLabel_eq : later.ownsLabel name = registry.ownsLabel name := by
  simp only [ownsLabel, isDerived_congr state,
    evolves.isVerbatim_eq valid laterValid state]

omit laterValid in
theorem Evolves.arenaLabel?_eq : later.arena.label? name = registry.arena.label? name := by
  have same : later.arena.state? name = registry.arena.state? name := state
  unfold Arena.label?
  rw [same]
  split
  · next position defined =>
      rcases valid.defined name position defined with ⟨label, kept⟩
      exact (evolves.labels position label kept).trans kept.symm
  · rfl

theorem Evolves.label?_eq (inside : registry.contains name = true) :
    later.label? name = registry.label? name := by
  unfold label?
  rw [evolves.arenaLabel?_eq valid state, evolves.isVerbatim_eq valid laterValid state,
    evolves.builtin? name inside]

end SameState

/-! ## Extensions -/

/-- A sound later state in which every name is as it was. -/
structure Extension (registry later : Registry) : Prop extends Evolves registry later where
  sound : later.Sound
  states : ∀ name, registry.contains name = true → later.state? name = registry.state? name

namespace Extension

variable {registry middle later : Registry}

theorem refl (sound : registry.Sound) : registry.Extension registry where
  toEvolves := .refl registry
  sound := sound
  states := fun _ _ => rfl

theorem trans (first : registry.Extension middle) (second : middle.Extension later) :
    registry.Extension later where
  toEvolves := first.toEvolves.trans second.toEvolves
  sound := second.sound
  states := fun name inside =>
    (second.states name (first.contains inside)).trans (first.states name inside)

variable (extension : registry.Extension later) (valid : registry.arena.Valid) {name : Name}
  (inside : registry.contains name = true)

include extension valid inside

theorem label?_eq : later.label? name = registry.label? name :=
  extension.toEvolves.label?_eq valid extension.sound.arena (extension.states name inside) inside

theorem ownsLabel_eq : later.ownsLabel name = registry.ownsLabel name :=
  extension.toEvolves.ownsLabel_eq valid extension.sound.arena (extension.states name inside)

end Extension

/-! ## Growth -/

section Appended

variable (registry : Registry) (name : Name)

theorem state?_defined (label : Label) :
    (registry.defined label).state? name =
      if name = registry.arena.next then some (.defined (registry.arena.labels.position label))
      else registry.state? name :=
  Arena.state?_append (registry.arena.withLabel label) _ name

theorem state?_derived (base : Name) :
    (registry.derived base).state? name =
      if name = registry.arena.next then some (.derived base) else registry.state? name :=
  Arena.state?_append registry.arena _ name

theorem state?_minted (definition : Builtin) (base : Name) :
    (registry.minted definition base).state? name =
      if name = registry.arena.next then some (.derived base) else registry.state? name :=
  Arena.state?_append registry.arena _ name

theorem label?_interned (valid : registry.arena.Valid) (label : Label) :
    (registry.interned label).arena.label? name = registry.arena.label? name :=
  valid.label?_withLabel label name

theorem label?_defined (valid : registry.arena.Valid) (label : Label) :
    (registry.defined label).arena.label? name =
      if name = registry.arena.next then some label else registry.arena.label? name := by
  have appended := (registry.arena.withLabel label).label?_append_defined
    (registry.arena.labels.position label) name
  rw [valid.label?_withLabel] at appended
  exact appended.trans (congrArg (ite _ · _) (registry.arena.labels.get?_position label))

theorem label?_derived (base : Name) :
    (registry.derived base).arena.label? name = registry.arena.label? name :=
  registry.arena.label?_append_derived base name

theorem label?_minted (definition : Builtin) (base : Name) :
    (registry.minted definition base).arena.label? name = registry.arena.label? name :=
  registry.arena.label?_append_derived base name

theorem builtin?_minted (definition : Builtin) (base : Name) :
    (registry.minted definition base).builtin? name =
      if registry.arena.next = name then some (registry.nameBuiltin registry.arena.next definition)
      else registry.builtin? name :=
  Keyed.find?_insert _ _ _ _

end Appended

namespace Growth

variable {registry later : Registry}

theorem state? (growth : Growth registry later) {name : Name}
    (inside : registry.contains name = true) : later.state? name = registry.state? name := by
  have notNext := Arena.ne_next inside
  cases growth with
  | same => rfl
  | interned label => rfl
  | defined label => rw [state?_defined, if_neg notNext]
  | derived name base => rw [state?_derived, if_neg notNext]
  | minted label definition base => rw [state?_minted, if_neg notNext]

theorem evolves (growth : Growth registry later) : registry.Evolves later := by
  have grown (arena : Arena) (state : NameState)
      (same : arena.entries = registry.arena.entries) :
      registry.size ≤ (arena.append state).size := by
    simp [Registry.size, Arena.size, Arena.append, same]
  cases growth with
  | same => exact .refl registry
  | interned label =>
      exact { Evolves.refl registry with labels := registry.arena.labels.grows_withLabel label }
  | defined label =>
      exact { Evolves.refl registry with
        size := grown _ _ rfl
        labels := registry.arena.labels.grows_withLabel label }
  | derived => exact { Evolves.refl registry with size := grown _ _ rfl }
  | minted =>
      refine { Evolves.refl registry with size := grown _ _ rfl, builtin? := ?_ }
      intro name inside
      rw [builtin?_minted, if_neg (Arena.ne_next inside).symm]

theorem consistent (growth : Growth registry later) (consistent : registry.Consistent) :
    later.Consistent := by
  have evolves := growth.evolves
  have arena : later.arena.Valid := by
    cases growth with
    | same => exact consistent.arena
    | interned label => exact consistent.arena.withLabel label
    | defined label =>
        exact (consistent.arena.withLabel label).append_defined
          (registry.arena.labels.get?_position label)
    | derived name base linked =>
        rcases consistent.arena.base?_eq_some linked with ⟨position, defined, -⟩
        exact consistent.arena.append_derived defined
    | minted label definition base found verbatim new linked =>
        rcases consistent.arena.base?_eq_some linked with ⟨position, defined, -⟩
        exact consistent.arena.append_derived defined
  have rootState := growth.state? (Arena.contains_of_label? consistent.root)
  refine ⟨arena, (evolves.arenaLabel?_eq consistent.arena rootState).trans consistent.root,
    ?_, ?_, ?_⟩
  · rw [evolves.predefined]
    exact evolves.contains consistent.verbatim
  · rw [evolves.boundaries]
    exact Nat.le_trans consistent.builtins evolves.size
  · intro arity name member
    cases growth with
    | minted label definition base =>
        rcases List.mem_append.mp member with old | new
        · exact evolves.contains (consistent.instances arity name old)
        · cases List.mem_singleton.mp new
          exact Arena.contains_next registry.arena _
    | same | interned | defined | derived =>
        exact evolves.contains (consistent.instances arity name member)

theorem sound (growth : Growth registry later) (sound : registry.Sound) : later.Sound where
  toConsistent := growth.consistent sound.toConsistent
  base := by
    rw [growth.evolves.predefined, growth.evolves.boundaries]
    exact sound.base

theorem extension (growth : Growth registry later) (sound : registry.Sound) :
    registry.Extension later where
  toEvolves := growth.evolves
  sound := growth.sound sound
  states := fun _ inside => growth.state? inside

end Growth

end NameRegistry.Registry
