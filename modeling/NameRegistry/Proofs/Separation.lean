import NameRegistry.Proofs.Uniqueness
import NameRegistry.Proofs.WellFormed

/-! # Verbatim built-ins are kept apart

In an unambiguous dialect no name carries the label of a verbatim built-in as its own.
Setting a registry up makes no verbatim built-in, and afterwards there is at most one
for each arity.
-/

namespace NameRegistry

namespace Dialect.Unambiguous

variable {dialect : Dialect} (unambiguous : dialect.Unambiguous)

include unambiguous

theorem ordinary_of_unread {label : Label} (unread : Verbatim.ofLabel? label = none) :
    dialect.Ordinary label := by
  intro definition found
  rw [Builtin.isVerbatim, unambiguous.named label definition found, unread, Option.isSome_none]

private theorem ordinary_candidate {base : Label} (ordinary : dialect.Ordinary base) (bump : Nat) :
    dialect.Ordinary (Suffix.candidate base bump) := by
  cases bump with
  | zero => exact ordinary
  | succ bump => exact unambiguous.ordinary_of_unread (Verbatim.ofLabel?_candidate base bump)

theorem ordinary_setupLabels {label : Label} (listed : label ∈ Registry.setupLabels dialect) :
    dialect.Ordinary label := by
  have others : ∀ label ∈ verbatimBaseLabel :: Registry.identifierLabels,
      Verbatim.ofLabel? label = none := by
    decide +kernel
  apply unambiguous.ordinary_of_unread
  rcases List.mem_append.mp listed with declared | other
  · exact unambiguous.notVerbatim label declared
  · exact others label other

end Dialect.Unambiguous

namespace Registry

/-! ## Labels that names carry -/

private theorem Growth.arenaLabel?_cases {registry later : Registry}
    (growth : Growth registry later) (valid : registry.arena.Valid) {name : Name} {label : Label}
    (labelled : later.arena.label? name = some label) :
    registry.arena.label? name = some label ∨ registry.dialect.Ordinary label := by
  cases growth with
  | same => exact .inl labelled
  | interned text => exact .inl ((label?_interned registry name valid text).symm.trans labelled)
  | defined text ordinary =>
      rw [label?_defined registry name valid] at labelled
      split at labelled
      · cases labelled
        exact .inr ordinary
      · exact .inl labelled
  | derived other base => exact .inl ((label?_derived registry name base).symm.trans labelled)
  | minted text definition base =>
      exact .inl ((label?_minted registry name definition base).symm.trans labelled)

private theorem Chosen.ordinary {registry : Registry} {taken illegal : List Label}
    {changes : List Relabelling} (chosen : Chosen registry taken illegal changes)
    (unambiguous : registry.dialect.Unambiguous)
    (carried : ∀ name label, registry.arena.label? name = some label →
      registry.dialect.Ordinary label) {change : Relabelling} (member : change ∈ changes) :
    registry.dialect.Ordinary change.label := by
  induction chosen generalizing change with
  | nil => exact absurd member (by simp)
  | @snoc changes last base earlier current free fresh induction =>
      rcases List.mem_append.mp member with before | final
      · exact induction before
      · cases List.mem_singleton.mp final
        have ordinary : registry.dialect.Ordinary base := by
          unfold currentBase? at current
          rcases Option.bind_eq_some_iff.mp current with ⟨name, -, labelled⟩
          cases shared : sharedLabel? changes name with
          | none => exact carried name base (by simpa [shared] using labelled)
          | some text =>
              rw [shared, Option.some_or] at labelled
              cases labelled
              rcases exists_aliased shared with ⟨existing, aliased⟩
              exact induction aliased
        rw [free]
        exact unambiguous.ordinary_candidate ordinary _

/-! ## During the setup -/

/-- No verbatim built-in has been made yet. -/
structure Unminted (registry : Registry) : Prop where
  carried : ∀ name label, registry.arena.label? name = some label →
    registry.dialect.Ordinary label
  defined : ∀ name, registry.contains name = true →
    ∃ position, registry.state? name = some (.defined position)
  known : ∀ name record, registry.builtin? name = some record →
    record.definition.isVerbatim = false
  instances : registry.instances = []

namespace Unminted

variable {registry : Registry} {label : Label}

private theorem appended (unminted : registry.Unminted) (valid : registry.arena.Valid)
    (ordinary : registry.dialect.Ordinary label) (absent : registry.present? label = none) :
    (registry.defined label).Unminted where
  carried := by
    intro name text labelled
    have growth := Growth.defined label ordinary absent
    rcases growth.arenaLabel?_cases valid labelled with before | new
    · exact unminted.carried name text before
    · exact new
  defined := by
    intro name inside
    rcases Arena.contains_iff.mp inside with ⟨state, found⟩
    have known : (registry.defined label).state? name = some state := found
    have appended := state?_defined registry name label
    by_cases next : name = registry.arena.next
    · exact ⟨_, appended.trans (if_pos next)⟩
    · rw [if_neg next] at appended
      rcases unminted.defined name (Arena.contains_of_state? (appended.symm.trans known)) with
        ⟨position, before⟩
      exact ⟨position, appended.trans before⟩
  known := unminted.known
  instances := unminted.instances

private theorem intern (unminted : registry.Unminted) (valid : registry.arena.Valid)
    (ordinary : registry.dialect.Ordinary label) {name : Name} {later : Registry}
    (done : Registry.intern label registry = .ok name later) : later.Unminted := by
  rcases intern_eq_ok ordinary done with ⟨-, rfl⟩ | ⟨absent, -, rfl⟩
  · exact unminted
  · exact unminted.appended valid ordinary absent

private theorem recorded (unminted : registry.Unminted) {definition : Builtin}
    (ordinary : definition.isVerbatim = false) (name : Name) :
    (registry.recorded name definition).Unminted where
  carried := unminted.carried
  defined := unminted.defined
  known := by
    intro other record found
    rw [builtin?_recorded] at found
    split at found
    · cases found
      exact ordinary
    · exact unminted.known other record found
  instances := unminted.instances

private theorem first {dialect : Dialect} (unambiguous : dialect.Unambiguous) :
    (({ dialect } : Registry).defined "").Unminted := by
  have ordinary : dialect.Ordinary "" :=
    unambiguous.ordinary_of_unread (by decide +kernel)
  have absent : ({ dialect } : Registry).present? "" = none := present?_first dialect
  have nothing : ({ dialect } : Registry).Unminted :=
    { carried := fun _ _ labelled => absurd labelled (by simp [Arena.label?, Arena.state?])
      defined := fun _ inside => absurd inside (by simp [contains, Arena.contains, Arena.size])
      known := fun _ _ found => absurd found (by simp [builtin?, Keyed.find?])
      instances := rfl }
  exact nothing.appended Arena.valid_empty ordinary absent

end Unminted

theorem Unclosed.ordinary {dialect : Dialect} {registry : Registry} {label : Label}
    (unclosed : Unclosed dialect registry) (unambiguous : dialect.Unambiguous)
    (listed : label ∈ setupLabels dialect) : registry.dialect.Ordinary label :=
  unclosed.subject ▸ unambiguous.ordinary_setupLabels listed

private theorem TakesTypes.unminted {dialect : Dialect} {seen : List Label} {registry : Registry}
    (takes : TakesTypes dialect seen registry) (unambiguous : dialect.Unambiguous) :
    registry.Unminted := by
  induction takes with
  | start => exact { Unminted.first unambiguous with }
  | unnamed _ _ induction => exact { induction with }
  | named place earlier _ done induction =>
      have unclosed := earlier.unclosed
      have declared := Lists.mem_of_place place
      have ordinary := unclosed.ordinary unambiguous (type_mem_setupLabels declared)
      exact { induction.intern unclosed.consistent.arena ordinary done with }

private theorem TakesBuiltins.unminted {dialect : Dialect} {seen : List Label} {registry : Registry}
    (takes : TakesBuiltins dialect seen registry) (unambiguous : dialect.Unambiguous) :
    registry.Unminted := by
  have interned {seen rest : List Label} {earlier later : Registry} {label : Label} {name : Name}
      (place : dialect.builtinLabels = seen ++ label :: rest) (unclosed : Unclosed dialect earlier)
      (unminted : earlier.Unminted) (done : intern label earlier = .ok name later) :
      later.Unminted :=
    unminted.intern unclosed.consistent.arena
      (unclosed.ordinary unambiguous (builtin_mem_setupLabels (Lists.mem_of_place place))) done
  induction takes with
  | start types done =>
      have unclosed := types.unclosed.separated
      have begun : Unminted (separated _) := { types.unminted unambiguous with }
      have ordinary := unclosed.ordinary unambiguous base_mem_setupLabels
      exact { begun.intern unclosed.consistent.arena ordinary done with }
  | unnamed _ _ induction => exact induction
  | undefined place earlier _ done _ induction =>
      exact interned place earlier.unclosed induction done
  | @defined _ _ _ _ label _ definition place earlier _ done found induction =>
      have unread := unambiguous.notVerbatim label
        (List.mem_append_right _ (Lists.mem_of_place place))
      exact (interned place earlier.unclosed induction done).recorded
        (unambiguous.ordinary_of_unread unread definition found) _

theorem unminted_ofDialect {dialect : Dialect} {registry : Registry}
    (unambiguous : dialect.Unambiguous) (built : ofDialect dialect = .ok registry) :
    registry.Unminted := by
  refine holds_of_closed built (fun filled takes => { takes.unminted unambiguous with })
    ?_ (fun _ _ _ unminted => { unminted with }) (fun _ _ unminted => { unminted with })
  rintro label listed earlier name later rfl sound done unminted
  exact unminted.intern sound.arena
    (unambiguous.ordinary_setupLabels (identifier_mem_setupLabels listed)) done

/-! ## In a finished registry -/

/-- A name is the verbatim built-in of an arity. Unless an assignment has given it a
label, it still goes back to the verbatim base. -/
structure Made (registry : Registry) (arity : Arity) (name : Name) : Prop where
  beyond : registry.boundaries.endBuiltins ≤ name
  recorded : ∃ record, registry.builtin? name = some record ∧
    record.definition.isVerbatim = true ∧ record.definition.arity = arity ∧
    registry.dialect.builtin? record.definition.name = some record.definition
  state : registry.isVerbatim name = true ∨
    ∃ label, registry.arena.label? name = some label ∧ label ∉ registry.fixedLabels

structure Separated (registry : Registry) : Prop where
  carried : ∀ name label, registry.arena.label? name = some label →
    registry.dialect.Ordinary label
  fixed : ∀ name, name < registry.boundaries.endBuiltins →
    ∃ position, registry.state? name = some (.defined position)
  recorded : ∀ name record, registry.builtin? name = some record →
    record.definition.isVerbatim = true →
    (record.definition.arity, name) ∈ registry.instances
  made : ∀ arity name, (arity, name) ∈ registry.instances → registry.Made arity name
  unique : ∀ arity left right, (arity, left) ∈ registry.instances →
    (arity, right) ∈ registry.instances → left = right

private theorem Unminted.separated {registry : Registry} (unminted : registry.Unminted)
    (sound : registry.Sound) : registry.Separated where
  carried := unminted.carried
  fixed := fun name less => unminted.defined name (sound.contains_of_lt less)
  recorded := by
    intro name record found verbatim
    exact absurd (verbatim.symm.trans (unminted.known name record found)) (by simp)
  made := by
    intro arity name member
    rw [unminted.instances] at member
    exact absurd member (by simp)
  unique := by
    intro arity left right member
    rw [unminted.instances] at member
    exact absurd member (by simp)

private theorem Made.evolves {registry later : Registry} {arity : Arity} {name : Name}
    (made : registry.Made arity name) (evolves : registry.Evolves later)
    (sound : registry.Sound) (laterValid : later.arena.Valid)
    (inside : registry.contains name = true)
    (fixedLabels : later.fixedLabels = registry.fixedLabels)
    (state : later.state? name = registry.state? name ∨
      ∃ label, later.arena.label? name = some label ∧ label ∉ registry.fixedLabels) :
    later.Made arity name where
  beyond := evolves.boundaries ▸ made.beyond
  recorded := by
    rw [evolves.builtin? name inside, evolves.dialect]
    exact made.recorded
  state := by
    rw [fixedLabels]
    rcases state with same | relabelled
    · rw [evolves.isVerbatim_eq sound.arena laterValid same,
        evolves.arenaLabel?_eq sound.arena same]
      exact made.state
    · exact .inr relabelled

private theorem Growth.fixedLabels_eq {registry later : Registry} (growth : Growth registry later)
    (sound : registry.Sound) : later.fixedLabels = registry.fixedLabels :=
  growth.evolves.fixedLabels_eq sound.toConsistent (growth.sound sound).arena
    fun _ less => growth.state? (sound.contains_of_lt less)

private theorem Growth.made {registry later : Registry} (growth : Growth registry later)
    (sound : registry.Sound) (separated : registry.Separated) {arity : Arity} {name : Name}
    (member : (arity, name) ∈ registry.instances) : later.Made arity name :=
  have inside := sound.instances arity name member
  (separated.made arity name member).evolves growth.evolves sound (growth.sound sound).arena
    inside (growth.fixedLabels_eq sound) (.inl (growth.state? inside))

/-! ### A new verbatim built-in -/

theorem Separated.base?_verbatim {registry : Registry} (separated : registry.Separated)
    (sound : registry.Sound) :
    registry.base? registry.predefined.verbatim = some registry.predefined.verbatim := by
  rcases separated.fixed _ sound.base with ⟨position, defined⟩
  exact Arena.base?_of_defined defined

section Minted

variable {registry : Registry} {label : Label} {definition : Builtin} {base : Name}
  (separated : registry.Separated) (sound : registry.Sound)
  (new : registry.instances.lookup definition.arity = none)
  (linked : registry.base? registry.predefined.verbatim = some base)

include separated sound linked in
private theorem isVerbatim_minted (valid : (registry.minted definition base).arena.Valid) :
    (registry.minted definition base).isVerbatim registry.arena.next = true := by
  cases linked.symm.trans (separated.base?_verbatim sound)
  have state : (registry.minted definition registry.predefined.verbatim).state?
      registry.arena.next = some (.derived registry.predefined.verbatim) := by
    rw [state?_minted, if_pos rfl]
  exact decide_eq_true (valid.base?_derived state)

include separated sound linked in
private theorem made_minted (found : registry.dialect.builtin? definition.name = some definition)
    (verbatim : definition.isVerbatim = true)
    (valid : (registry.minted definition base).arena.Valid) :
    (registry.minted definition base).Made definition.arity registry.arena.next where
  beyond := sound.builtins
  recorded := by
    refine ⟨registry.nameBuiltin registry.arena.next definition, ?_, verbatim, rfl, found⟩
    rw [builtin?_minted, if_pos rfl]
  state := .inl (isVerbatim_minted separated sound linked valid)

include separated in
private theorem recorded_minted {name : Name} {record : NamedBuiltin}
    (known : (registry.minted definition base).builtin? name = some record)
    (verbatim : record.definition.isVerbatim = true) :
    (record.definition.arity, name) ∈ (registry.minted definition base).instances := by
  rw [builtin?_minted] at known
  split at known
  · next same =>
      cases known
      cases same
      exact List.mem_append_right _ (List.mem_singleton_self _)
  · exact List.mem_append_left _ (separated.recorded name record known verbatim)

include separated new in
private theorem unique_minted {arity : Arity} {left right : Name}
    (leftIn : (arity, left) ∈ (registry.minted definition base).instances)
    (rightIn : (arity, right) ∈ (registry.minted definition base).instances) :
    left = right := by
  have absent (name : Name) : (definition.arity, name) ∉ registry.instances := by
    intro member
    have different := List.lookup_eq_none_iff.mp new _ member
    exact absurd different (by simp)
  rcases List.mem_append.mp leftIn with leftOld | leftNew
  · rcases List.mem_append.mp rightIn with rightOld | rightNew
    · exact separated.unique arity left right leftOld rightOld
    · cases List.mem_singleton.mp rightNew
      exact absurd leftOld (absent left)
  · cases List.mem_singleton.mp leftNew
    rcases List.mem_append.mp rightIn with rightOld | rightNew
    · exact absurd rightOld (absent right)
    · cases List.mem_singleton.mp rightNew
      rfl

end Minted

/-! ### Every change -/

private theorem Growth.separated {registry later : Registry} (growth : Growth registry later)
    (unambiguous : registry.dialect.Unambiguous) (sound : registry.Sound)
    (separated : registry.Separated) : later.Separated := by
  have carried : ∀ name label, later.arena.label? name = some label →
      later.dialect.Ordinary label := by
    intro name label labelled
    rw [growth.evolves.dialect]
    rcases growth.arenaLabel?_cases sound.arena labelled with before | new
    · exact separated.carried name label before
    · exact new
  have fixed : ∀ name, name < later.boundaries.endBuiltins →
      ∃ position, later.state? name = some (.defined position) := by
    intro name less
    rw [growth.evolves.boundaries] at less
    rw [growth.state? (sound.contains_of_lt less)]
    exact separated.fixed name less
  have made : ∀ arity name, (arity, name) ∈ registry.instances → later.Made arity name :=
    fun _ _ member => growth.made sound separated member
  have valid := (growth.sound sound).arena
  cases growth with
  | same => exact separated
  | interned | defined | derived =>
      exact ⟨carried, fixed, separated.recorded, made, separated.unique⟩
  | minted label definition base found verbatim new linked =>
      refine ⟨carried, fixed, fun _ _ => recorded_minted separated, ?_,
        fun _ _ _ => unique_minted separated new⟩
      intro arity name member
      rcases List.mem_append.mp member with old | added
      · exact made arity name old
      · cases List.mem_singleton.mp added
        have named := unambiguous.named label definition found
        exact made_minted separated sound linked (named ▸ found) verbatim valid

private theorem Relabels.separated {registry later : Registry} {used : List Name}
    {illegal : List Label} {changes : List Relabelling}
    (relabels : Relabels (changes.map Relabelling.label) registry later)
    (chosen : Chosen registry (registry.takenLabels used) illegal changes)
    (unambiguous : registry.dialect.Unambiguous) (sound : registry.Sound)
    (separated : registry.Separated) : later.Separated := by
  have evolves := relabels.evolves
  have fixedLabels := evolves.fixedLabels_eq sound.toConsistent relabels.arena
    fun name less => relabels.state?_of_lt less
  have builtins : later.builtins = registry.builtins := by rw [relabels.frame]
  have instances : later.instances = registry.instances := by rw [relabels.frame]
  refine ⟨?_, ?_, ?_, ?_, ?_⟩
  · intro name label labelled
    rw [evolves.dialect]
    rcases relabels.states name with same | ⟨-, given, member, known⟩
    · rw [evolves.arenaLabel?_eq sound.arena same] at labelled
      exact separated.carried name label labelled
    · cases known.symm.trans labelled
      rcases List.mem_map.mp member with ⟨change, present, rfl⟩
      exact chosen.ordinary unambiguous separated.carried present
  · intro name less
    rw [evolves.boundaries] at less
    rw [relabels.state?_of_lt less]
    exact separated.fixed name less
  · rw [instances]
    intro name record found
    exact separated.recorded name record (by rwa [builtin?, builtins] at found)
  · rw [instances]
    intro arity name member
    refine (separated.made arity name member).evolves evolves sound relabels.arena
      (sound.instances arity name member) fixedLabels ?_
    rcases relabels.states name with same | ⟨-, given, present, known⟩
    · exact .inl same
    · rcases List.mem_map.mp present with ⟨change, changed, rfl⟩
      exact .inr ⟨change.label, known, fun taken =>
        (chosen.not_mem changed).1 (List.mem_append_left _ taken)⟩
  · rw [instances]
    exact separated.unique

theorem Reachable.separated_of_unambiguous {dialect : Dialect} {registry : Registry}
    (reachable : Reachable dialect registry) (unambiguous : dialect.Unambiguous) :
    registry.Separated := by
  apply reachable.keeps
  · intro finished built
    exact (unminted_ofDialect unambiguous built).separated (sound_ofDialect built).2
  · intro earlier later same sound growth separated
    exact growth.separated (same ▸ unambiguous) sound separated
  · intro earlier later used illegal changes same sound chosen relabels separated
    exact relabels.separated chosen (same ▸ unambiguous) sound separated

theorem Reachable.separated {dialect : Dialect} {registry : Registry}
    (reachable : Reachable dialect registry) (wellFormed : dialect.WellFormed) :
    registry.Separated :=
  reachable.separated_of_unambiguous wellFormed.toUnambiguous

end Registry

end NameRegistry
