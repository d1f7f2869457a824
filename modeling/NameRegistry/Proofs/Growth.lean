import NameRegistry.Proofs.Arena
import NameRegistry.Registry.Command

/-! # How a registry grows

Interning, deriving and asking for a verbatim built-in either find a name that is
there or append a single one. What a registry knows of its names before is the
same afterwards.
-/

namespace NameRegistry

/-- A label that stands for no verbatim built-in of a dialect. -/
def Dialect.Ordinary (dialect : Dialect) (label : Label) : Prop :=
  ∀ definition, dialect.builtin? label = some definition → definition.isVerbatim = false

theorem Dialect.ordinary_or_verbatim (dialect : Dialect) (label : Label) :
    dialect.Ordinary label ∨
      ∃ definition, dialect.builtin? label = some definition ∧ definition.isVerbatim = true := by
  cases found : dialect.builtin? label with
  | none => exact .inl fun definition defined => absurd (found.symm.trans defined) (by simp)
  | some definition =>
      cases verbatim : definition.isVerbatim with
      | true => exact .inr ⟨definition, rfl, verbatim⟩
      | false =>
          refine .inl fun other defined => ?_
          cases found.symm.trans defined
          exact verbatim

namespace Registry

/-! ## What is appended -/

/-- The registry once a label has been interned, without a name for it. This is
left when the arena is full and the label table is not. -/
def interned (registry : Registry) (label : Label) : Registry :=
  { registry with arena := registry.arena.withLabel label }

def defined (registry : Registry) (label : Label) : Registry :=
  { registry with
    arena := (registry.arena.withLabel label).append
      (.defined (registry.arena.labels.position label)) }

def derived (registry : Registry) (base : Name) : Registry :=
  { registry with arena := registry.arena.append (.derived base) }

def minted (registry : Registry) (definition : Builtin) (base : Name) : Registry :=
  { registry with
    arena := registry.arena.append (.derived base)
    builtins := Keyed.insert NamedBuiltin.name
      (registry.nameBuiltin registry.arena.next definition) registry.builtins
    instances := registry.instances ++ [(definition.arity, registry.arena.next)] }

/-! ## What one operation does -/

theorem onArena_define_cases (label : Label) (registry : Registry) :
    onArena (Arena.define label) registry = .ok registry.arena.next (registry.defined label) ∨
      (Arena.capacity ≤ registry.size ∨ Arena.labelCapacity ≤ registry.arena.labels.size) ∧
        ∃ count later, (later = registry ∨ later = registry.interned label) ∧
          onArena (Arena.define label) registry = .error (.arenaFull count) later := by
  unfold onArena
  rcases Arena.define_cases label registry.arena with
    done | ⟨full, count, later, left, failed⟩
  · rw [done]
    exact .inl rfl
  · rw [failed]
    refine .inr ⟨full, count, { registry with arena := later }, ?_, rfl⟩
    rcases left with rfl | rfl
    · exact .inl rfl
    · exact .inr rfl

theorem derive_cases (name : Name) (registry : Registry) :
    (∃ base, registry.base? name = some base ∧
        derive name registry = .ok registry.arena.next (registry.derived base)) ∨
      ∃ error, (registry.base? name = none ∨
          Arena.capacity ≤ registry.size ∧ ∃ count, error = .arenaFull count) ∧
        derive name registry = .error error registry := by
  unfold derive onArena
  rcases Arena.derive_cases name registry.arena with
    ⟨base, found, done⟩ | ⟨outside, failed⟩ | ⟨full, count, failed⟩
  · rw [done]
    exact .inl ⟨base, found, rfl⟩
  · rw [failed]
    exact .inr ⟨_, .inl outside, rfl⟩
  · rw [failed]
    exact .inr ⟨_, .inr ⟨full, count, rfl⟩, rfl⟩

theorem verbatimInstance_cases (definition : Builtin) (registry : Registry) :
    (∃ name, registry.instances.lookup definition.arity = some name ∧
        verbatimInstance definition registry = .ok name registry) ∨
      registry.instances.lookup definition.arity = none ∧
        ((∃ base, registry.base? registry.predefined.verbatim = some base ∧
            verbatimInstance definition registry =
              .ok registry.arena.next (registry.minted definition base)) ∨
          ∃ error, (registry.base? registry.predefined.verbatim = none ∨
              Arena.capacity ≤ registry.size ∧ ∃ count, error = .arenaFull count) ∧
            verbatimInstance definition registry = .error error registry) := by
  cases made : registry.instances.lookup definition.arity with
  | some name =>
      refine .inl ⟨name, rfl, ?_⟩
      rw [verbatimInstance, get_sequence]
      simp only [made]
      rfl
  | none =>
      have sequence : verbatimInstance definition registry =
          (derive registry.predefined.verbatim >>= fun name =>
            recordBuiltin name definition >>= fun _ =>
              modify (fun registry =>
                { registry with
                  instances := registry.instances ++ [(definition.arity, name)] }) >>= fun _ =>
                return name : Update Name) registry := by
        rw [verbatimInstance, get_sequence]
        simp only [made]
        rfl
      refine .inr ⟨rfl, ?_⟩
      rw [sequence]
      simp only [bind, EStateM.bind]
      rcases derive_cases registry.predefined.verbatim registry with
        ⟨base, found, done⟩ | ⟨error, cause, failed⟩
      · rw [done]
        exact .inl ⟨base, found, rfl⟩
      · rw [failed]
        exact .inr ⟨error, cause, rfl⟩

theorem verbatimInstance_eq_ok {definition : Builtin} {registry later : Registry} {name : Name}
    (done : verbatimInstance definition registry = .ok name later) :
    registry.instances.lookup definition.arity = some name ∧ later = registry ∨
      name = registry.arena.next ∧ ∃ base,
        registry.base? registry.predefined.verbatim = some base ∧
          later = registry.minted definition base := by
  rcases verbatimInstance_cases definition registry with
    ⟨known, made, existing⟩ | ⟨-, ⟨base, linked, minted⟩ | ⟨error, -, failed⟩⟩
  · cases existing.symm.trans done
    exact .inl ⟨made, rfl⟩
  · cases minted.symm.trans done
    exact .inr ⟨rfl, base, linked, rfl⟩
  · exact absurd (failed.symm.trans done) (by simp)

/-- The name that interning an ordinary label finds. -/
def present? (registry : Registry) (label : Label) : Option Name :=
  if (registry.dialect.builtin? label).isSome then registry.findBuiltin? label
  else registry.find? label

theorem intern_verbatim {registry : Registry} {label : Label} {definition : Builtin}
    (found : registry.dialect.builtin? label = some definition)
    (verbatim : definition.isVerbatim = true) :
    intern label registry = verbatimInstance definition registry := by
  rw [intern, get_sequence]
  simp only [found, verbatim, if_true]

theorem intern_ordinary {registry : Registry} {label : Label}
    (ordinary : registry.dialect.Ordinary label) :
    intern label registry =
      match registry.present? label with
      | some name => .ok name registry
      | none => onArena (Arena.define label) registry := by
  rw [intern, get_sequence]
  unfold present?
  cases found : registry.dialect.builtin? label with
  | some definition =>
      simp only [ordinary definition found, Option.isSome_some, if_true]
      cases registry.findBuiltin? label <;> rfl
  | none =>
      simp only [Option.isSome_none]
      cases registry.find? label <;> rfl

theorem intern_eq_ok {registry later : Registry} {label : Label} {name : Name}
    (ordinary : registry.dialect.Ordinary label)
    (done : intern label registry = .ok name later) :
    registry.present? label = some name ∧ later = registry ∨
      registry.present? label = none ∧ name = registry.arena.next ∧
        later = registry.defined label := by
  rw [intern_ordinary ordinary] at done
  cases present : registry.present? label with
  | some known =>
      rw [present] at done
      cases done
      exact .inl ⟨rfl, rfl⟩
  | none =>
      rw [present] at done
      rcases onArena_define_cases label registry with defined | ⟨-, count, left, -, failed⟩
      · cases defined.symm.trans done
        exact .inr ⟨rfl, rfl, rfl⟩
      · exact absurd (failed.symm.trans done) (by simp)

theorem intern_eq_ok_of_absent {registry later : Registry} {label : Label} {name : Name}
    (ordinary : registry.dialect.Ordinary label) (absent : registry.present? label = none)
    (done : intern label registry = .ok name later) :
    name = registry.arena.next ∧ later = registry.defined label := by
  rcases intern_eq_ok ordinary done with ⟨present, -⟩ | ⟨-, defined⟩
  · exact absurd (absent.symm.trans present) (by simp)
  · exact defined

theorem internVerbatim?_eq (arity : Arity) (registry : Registry) :
    internVerbatim? arity registry =
      match registry.dialect.verbatim? arity with
      | some definition => (some <$> verbatimInstance definition : Update _) registry
      | none => .ok none registry := by
  rw [internVerbatim?, get_sequence]
  cases registry.dialect.verbatim? arity <;> rfl

/-! ## Growth by at most one name -/

/-- What is left of an update, whether it succeeds or fails. -/
def after (update : Update α) (registry : Registry) : Registry :=
  match update registry with
  | .ok _ later => later
  | .error _ later => later

theorem after_of_ok {update : Update α} {registry later : Registry} {result : α}
    (done : update registry = .ok result later) : after update registry = later := by
  rw [after, done]

inductive Growth (registry : Registry) : Registry → Prop where
  | same : Growth registry registry
  | interned (label : Label) : Growth registry (registry.interned label)
  | defined (label : Label) (ordinary : registry.dialect.Ordinary label)
      (absent : registry.present? label = none) : Growth registry (registry.defined label)
  | derived (name base : Name) (linked : registry.base? name = some base) :
      Growth registry (registry.derived base)
  | minted (label : Label) (definition : Builtin) (base : Name)
      (found : registry.dialect.builtin? label = some definition)
      (verbatim : definition.isVerbatim = true)
      (new : registry.instances.lookup definition.arity = none)
      (linked : registry.base? registry.predefined.verbatim = some base) :
      Growth registry (registry.minted definition base)

private theorem growth_verbatimInstance {registry : Registry} {label : Label} {definition : Builtin}
    (found : registry.dialect.builtin? label = some definition)
    (verbatim : definition.isVerbatim = true) :
    Growth registry (after (verbatimInstance definition) registry) := by
  unfold after
  rcases verbatimInstance_cases definition registry with
    ⟨name, -, known⟩ | ⟨new, ⟨base, linked, made⟩ | ⟨error, -, failed⟩⟩
  · rw [known]
    exact .same
  · rw [made]
    exact .minted label definition base found verbatim new linked
  · rw [failed]
    exact .same

private theorem after_intern_ordinary {registry : Registry} {label : Label}
    (ordinary : registry.dialect.Ordinary label) :
    after (intern label) registry = registry ∨
      after (intern label) registry = registry.interned label ∨
      registry.present? label = none ∧ after (intern label) registry = registry.defined label := by
  unfold after
  rw [intern_ordinary ordinary]
  cases present : registry.present? label with
  | some name => exact .inl rfl
  | none =>
      simp only
      rcases onArena_define_cases label registry with done | ⟨-, count, later, left, failed⟩
      · rw [done]
        exact .inr (.inr ⟨trivial, rfl⟩)
      · rw [failed]
        rcases left with rfl | rfl
        · exact .inl rfl
        · exact .inr (.inl rfl)

theorem growth_intern (label : Label) (registry : Registry) :
    Growth registry (after (intern label) registry) := by
  rcases registry.dialect.ordinary_or_verbatim label with
    ordinary | ⟨definition, found, verbatim⟩
  · rcases after_intern_ordinary ordinary with same | interned | ⟨absent, defined⟩
    · rw [same]
      exact .same
    · rw [interned]
      exact .interned label
    · rw [defined]
      exact .defined label ordinary absent
  · have instead := @growth_verbatimInstance registry label definition found verbatim
    unfold after at instead ⊢
    rw [intern_verbatim found verbatim]
    exact instead

theorem growth_of_intern {registry later : Registry} {label : Label} {name : Name}
    (done : intern label registry = .ok name later) : Growth registry later :=
  after_of_ok done ▸ growth_intern label registry

theorem growth_derive (name : Name) (registry : Registry) :
    Growth registry (after (derive name) registry) := by
  unfold after
  rcases derive_cases name registry with ⟨base, linked, done⟩ | ⟨error, -, failed⟩
  · rw [done]
    exact .derived name base linked
  · rw [failed]
    exact .same

theorem after_map (function : α → β) (update : Update α) (registry : Registry) :
    after (function <$> update) registry = after update registry := by
  simp only [after, Functor.map, EStateM.map]
  cases update registry <;> rfl

theorem after_sequence (first : Update α) (next : α → Update β) (registry : Registry) :
    after (first >>= next) registry =
      match first registry with
      | .ok result middle => after (next result) middle
      | .error _ middle => middle := by
  simp only [after, bind, EStateM.bind]
  cases first registry <;> rfl

theorem sequence_eq_ok {first : Update α} {next : α → Update β} {registry later : Registry}
    {result : β} (done : (first >>= next) registry = .ok result later) :
    ∃ intermediate middle, first registry = .ok intermediate middle ∧
      next intermediate middle = .ok result later := by
  simp only [bind, EStateM.bind] at done
  split at done
  · next intermediate middle succeeded => exact ⟨intermediate, middle, succeeded, done⟩
  · exact absurd done (by simp)

theorem growth_internVerbatim? (arity : Arity) (registry : Registry) :
    Growth registry (after (internVerbatim? arity) registry) := by
  unfold after
  rw [internVerbatim?_eq]
  cases found : registry.dialect.verbatim? arity with
  | none => exact .same
  | some definition =>
      rcases Option.filter_eq_some_iff.mp found with ⟨defined, verbatim⟩
      have unmapped := after_map some (verbatimInstance definition) registry
      unfold after at unmapped
      rw [unmapped]
      exact growth_verbatimInstance defined verbatim

end Registry

end NameRegistry
