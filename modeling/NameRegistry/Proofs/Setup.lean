import NameRegistry.Proofs.Ascending
import NameRegistry.Proofs.Evolution
import NameRegistry.Proofs.Lists
import NameRegistry.Registry.Setup

/-! # How a registry takes in its dialect

The updates of the setup are opened here and nowhere else. They are described in two ways: by
what they are put together from, which tells when the setup can fail, and by the states that
it leads through, from which every invariant of the finished registry is proved by induction.
-/

namespace NameRegistry.Registry

/-! ## One item after the other -/

private theorem holds_of_forM {update : α → Update Unit} {items : List α}
    {Holds : List α → Registry → Prop}
    (step : ∀ seen item rest registry later, items = seen ++ item :: rest →
      Holds seen registry → update item registry = .ok () later → Holds (seen ++ [item]) later)
    {registry later : Registry} (start : Holds [] registry)
    (done : items.forM update registry = .ok () later) : Holds items later := by
  have walk : ∀ rest seen registry, items = seen ++ rest → Holds seen registry →
      rest.forM update registry = .ok () later → Holds items later := by
    intro rest
    induction rest with
    | nil =>
        intro seen registry split holds walked
        cases walked
        rw [split, List.append_nil]
        exact holds
    | cons item rest induction =>
        intro seen registry split holds walked
        rcases @sequence_eq_ok _ _ (update item) _ _ _ _ walked with ⟨_, middle, first, others⟩
        exact induction (seen ++ [item]) middle (by simp [split])
          (step seen item rest registry middle split holds first) others
  exact walk items [] registry rfl start done

/-! ## Names that are answered -/

theorem mem_builtinNames {registry : Registry} {name : Name} :
    name ∈ registry.builtinNames ↔
      registry.boundaries.beginBuiltins ≤ name ∧ name < registry.boundaries.endBuiltins :=
  mem_namesBetween

theorem findBuiltin?_lt {registry : Registry} {label : Label} {name : Name}
    (found : registry.findBuiltin? label = some name) :
    registry.boundaries.beginBuiltins ≤ name ∧ name < registry.boundaries.endBuiltins :=
  mem_builtinNames.mp (List.mem_of_find?_eq_some found)

private theorem findBuiltin?_of_unclosed {registry : Registry}
    (unclosed : registry.boundaries.endBuiltins = .empty) (label : Label) :
    registry.findBuiltin? label = none := by
  simp [findBuiltin?, builtinNames, unclosed, Name.empty]

theorem findBuiltin?_predefined {registry : Registry} {predefined : PredefinedNames}
    (same : predefined.verbatim = registry.predefined.verbatim) (label : Label) :
    { registry with predefined }.findBuiltin? label = registry.findBuiltin? label := by
  have labels (name : Name) : { registry with predefined }.label? name = registry.label? name := by
    have verbatim : { registry with predefined }.isVerbatim name = registry.isVerbatim name := by
      rw [isVerbatim, same]
      rfl
    rw [label?, verbatim]
    rfl
  simp only [findBuiltin?, builtinNames, labels]

theorem exists_findBuiltin?_of_mem {registry : Registry} {name : Name} {label : Label}
    (member : name ∈ registry.builtinNames)
    (carried : registry.arena.label? name = some label) :
    ∃ found, registry.findBuiltin? label = some found := by
  have labelled : registry.label? name = some label := by
    simp only [label?, carried]
  have present : (registry.findBuiltin? label).isSome := by
    rw [findBuiltin?, List.find?_isSome]
    exact ⟨name, member, by simpa using labelled⟩
  exact Option.isSome_iff_exists.mp present

namespace Consistent

variable {registry later : Registry} (consistent : registry.Consistent)

include consistent

theorem contains_present {label : Label} {name : Name}
    (present : registry.present? label = some name) : registry.contains name = true := by
  unfold present? at present
  split at present
  · have inside := Name.lt_def.mp (findBuiltin?_lt present).2
    exact Arena.contains_of_lt (Nat.lt_of_lt_of_le inside consistent.builtins)
  · rcases Option.map_eq_some_iff.mp present with ⟨⟨carrier, position⟩, found, rfl⟩
    exact Arena.contains_of_state? (Arena.carrier?_eq_some found).1

private theorem contains_verbatimInstance {definition : Builtin} {name : Name}
    (done : verbatimInstance definition registry = .ok name later) :
    later.contains name = true := by
  rcases verbatimInstance_eq_ok done with ⟨made, rfl⟩ | ⟨rfl, base, -, rfl⟩
  · exact consistent.instances definition.arity name (Keyed.mem_of_lookup made)
  · exact Arena.contains_next registry.arena _

theorem contains_intern {label : Label} {name : Name}
    (done : intern label registry = .ok name later) : later.contains name = true := by
  rcases registry.dialect.ordinary_or_verbatim label with
    ordinary | ⟨definition, found, verbatim⟩
  · rcases intern_eq_ok ordinary done with ⟨present, rfl⟩ | ⟨-, rfl, rfl⟩
    · exact consistent.contains_present present
    · exact Arena.contains_next (registry.arena.withLabel label) _
  · rw [intern_verbatim found verbatim] at done
    exact consistent.contains_verbatimInstance done

end Consistent

/-! ## What the setup is put together from -/

def identifierLabels : List Label :=
  ["dataoffset", "datasize", "selfdestruct", "tstore", "memoryguard", "eq", "add", "sub",
    placeholderLabel 0, placeholderLabel 1, placeholderLabel 32]

/-- Every label that is interned while a registry takes in its dialect, the empty
label of the first name apart. -/
def setupLabels (dialect : Dialect) : List Label :=
  dialect.types ++ dialect.builtinLabels ++ verbatimBaseLabel :: identifierLabels

theorem nonempty_of_mem_identifierLabels {label : Label} (listed : label ∈ identifierLabels) :
    label ≠ "" := by
  rintro rfl
  exact absurd listed (by decide)

section Members

variable {dialect : Dialect} {label : Label}

theorem type_mem_setupLabels (declared : label ∈ dialect.types) : label ∈ setupLabels dialect := by
  simp [setupLabels, declared]

theorem builtin_mem_setupLabels (enumerated : label ∈ dialect.builtinLabels) :
    label ∈ setupLabels dialect := by
  simp [setupLabels, enumerated]

theorem base_mem_setupLabels : verbatimBaseLabel ∈ setupLabels dialect := by
  simp [setupLabels]

theorem identifier_mem_setupLabels (listed : label ∈ identifierLabels) :
    label ∈ setupLabels dialect := by
  simp [setupLabels, listed]

end Members

/-- On registries of the dialect, the update interns at most `count` labels, all of them
`Interned`, and what else it changes is `Allowed`. -/
inductive Composed (dialect : Dialect) (Interned : Label → Prop)
    (Allowed : Registry → Registry → Prop) : {α : Type} → Nat → Update α → Prop where
  | value {α : Type} (result : α) : Composed dialect Interned Allowed 0 (pure result)
  | change {modification : Registry → Registry}
      (allowed : ∀ registry, registry.dialect = dialect →
        Allowed registry (modification registry)) :
      Composed dialect Interned Allowed 0 (modify modification)
  | intern {label : Label} (listed : Interned label) :
      Composed dialect Interned Allowed 1 (intern label)
  | sequence {α β : Type} {left right : Nat} {first : Update α} {next : α → Update β}
      (one : Composed dialect Interned Allowed left first)
      (others : ∀ result, Composed dialect Interned Allowed right (next result)) :
      Composed dialect Interned Allowed (left + right) (first >>= next)
  | read {α : Type} {count : Nat} {next : Registry → Update α}
      (others : ∀ registry, registry.dialect = dialect →
        Composed dialect Interned Allowed count (next registry)) :
      Composed dialect Interned Allowed count (get >>= next)
  | more {α : Type} {count bound : Nat} {update : Update α}
      (composed : Composed dialect Interned Allowed count update) (fewer : count ≤ bound) :
      Composed dialect Interned Allowed bound update

namespace Composed

variable {dialect : Dialect} {Interned Listed : Label → Prop}
  {Allowed Permitted : Registry → Registry → Prop} {count : Nat}

private theorem each {update : α → Update Unit} {items : List α}
    (one : ∀ item ∈ items, Composed dialect Interned Allowed 1 (update item)) :
    Composed dialect Interned Allowed items.length (items.forM update) := by
  induction items with
  | nil => exact .value ()
  | cons item items induction =>
      have first := one item List.mem_cons_self
      have others := induction fun other member => one other (List.mem_cons_of_mem item member)
      exact .more (.sequence first fun _ => others) (by simp [Nat.add_comm])

private theorem weaken {update : Update α}
    (composed : Composed dialect Interned Allowed count update)
    (listed : ∀ label, Interned label → Listed label)
    (permitted : ∀ registry later, Allowed registry later → Permitted registry later) :
    Composed dialect Listed Permitted count update := by
  induction composed with
  | value result => exact .value result
  | change allowed => exact .change fun registry same => permitted _ _ (allowed registry same)
  | intern interned => exact .intern (listed _ interned)
  | sequence _ _ one others => exact .sequence one others
  | read _ others => exact .read others
  | more _ fewer induction => exact .more induction fewer

/-- What interning and the allowed changes keep is kept by the whole update. -/
theorem keeps {Property : Registry → Prop} {update : Update α}
    (composed : Composed dialect Interned Allowed count update)
    (subject : ∀ registry, Property registry → registry.dialect = dialect)
    (interned : ∀ label registry name later, Interned label → Property registry →
      Registry.intern label registry = .ok name later → Property later)
    (allowed : ∀ registry later, Allowed registry later → Property registry → Property later)
    {registry later : Registry} {result : α} (holds : Property registry)
    (done : update registry = .ok result later) : Property later := by
  induction composed generalizing registry later with
  | value result =>
      cases done
      exact holds
  | change permitted =>
      cases done
      exact allowed _ _ (permitted registry (subject registry holds)) holds
  | intern listed => exact interned _ _ _ _ listed holds done
  | sequence _ _ one others =>
      rcases sequence_eq_ok done with ⟨intermediate, middle, first, followed⟩
      exact others intermediate (one holds first) followed
  | read _ others => exact others registry (subject registry holds) holds done
  | more _ _ induction => exact induction holds done

end Composed

private structure Predefines (registry later : Registry) : Prop where
  others : later = { registry with predefined := later.predefined }
  verbatim : later.predefined.verbatim = registry.predefined.verbatim

private theorem composed_registerIdentifier {dialect : Dialect} {label : Label}
    (listed : label ∈ identifierLabels) :
    Composed dialect (· ∈ identifierLabels) Predefines 1 (registerIdentifier label) := by
  refine .read fun registry _ => ?_
  split
  · exact .more (.value _) (Nat.zero_le _)
  · split
    · rw [map_eq_pure_bind]
      exact .sequence (.intern listed) fun name => .value (some name)
    · exact .more (.value _) (Nat.zero_le _)

private theorem composed_registerIdentifiers (dialect : Dialect) :
    Composed dialect (· ∈ identifierLabels) Predefines 8 registerIdentifiers := by
  refine .more (.sequence (.change fun _ _ => ⟨rfl, rfl⟩) fun _ =>
    .sequence (composed_registerIdentifier (by decide)) fun _ =>
    .sequence (composed_registerIdentifier (by decide)) fun _ =>
    .sequence (composed_registerIdentifier (by decide)) fun _ =>
    .sequence (composed_registerIdentifier (by decide)) fun _ =>
    .sequence (composed_registerIdentifier (by decide)) fun _ =>
    .sequence (composed_registerIdentifier (by decide)) fun _ =>
    .sequence (composed_registerIdentifier (by decide)) fun _ =>
    .sequence (composed_registerIdentifier (by decide)) fun _ =>
      .change fun _ _ => ⟨rfl, rfl⟩) (by omega)

private theorem composed_registerPlaceholders (dialect : Dialect) :
    Composed dialect (· ∈ identifierLabels) Predefines 3 registerPlaceholders := by
  refine .more (.sequence (.intern (by decide)) fun _ =>
    .sequence (.intern (by decide)) fun _ =>
    .sequence (.intern (by decide)) fun _ => .change fun _ _ => ⟨rfl, rfl⟩) (by omega)

def SameNames (registry later : Registry) : Prop :=
  later.dialect = registry.dialect ∧ later.arena = registry.arena

private theorem composed_registerTypes (dialect : Dialect) :
    Composed dialect (· ∈ "" :: setupLabels dialect) SameNames dialect.types.length
      registerTypes := by
  refine .read fun registry subject => ?_
  subst subject
  refine .more (.sequence (.change fun _ _ => ⟨rfl, rfl⟩) fun _ =>
    .sequence (.each fun label declared => ?_) fun _ => .change fun _ _ => ⟨rfl, rfl⟩) (by omega)
  unfold registerType
  split
  · exact .more (.sequence (.value _) fun _ => .change fun _ _ => ⟨rfl, rfl⟩) (Nat.zero_le _)
  · exact .sequence (.intern (List.mem_cons_of_mem _ (type_mem_setupLabels declared))) fun _ =>
      .change fun _ _ => ⟨rfl, rfl⟩

private theorem composed_registerBuiltin {dialect : Dialect} {label : Label}
    (enumerated : label ∈ dialect.builtinLabels) :
    Composed dialect (· ∈ "" :: setupLabels dialect) SameNames 1 (registerBuiltin label) := by
  unfold registerBuiltin
  split
  · refine .more (.sequence
      (.intern (List.mem_cons_of_mem _ (builtin_mem_setupLabels enumerated))) fun name =>
      .read fun registry _ => ?_) (Nat.le_refl (1 + 0))
    split
    · exact .change fun _ _ => ⟨rfl, rfl⟩
    · exact .value ()
  · exact .more (.value ()) (Nat.zero_le _)

private theorem composed_registerBuiltins (dialect : Dialect) :
    Composed dialect (· ∈ "" :: setupLabels dialect) SameNames
      (1 + dialect.builtinLabels.length) registerBuiltins := by
  refine .read fun registry subject => ?_
  subst subject
  refine .more (.sequence (.change fun _ _ => ⟨rfl, rfl⟩) fun _ =>
    .sequence (.intern (List.mem_cons_of_mem _ base_mem_setupLabels)) fun _ =>
    .sequence (.change fun _ _ => ⟨rfl, rfl⟩) fun _ =>
    .sequence (.each fun _ enumerated => composed_registerBuiltin enumerated) fun _ =>
      .change fun _ _ => ⟨rfl, rfl⟩) (by omega)

theorem composed_setup (dialect : Dialect) :
    Composed dialect (· ∈ "" :: setupLabels dialect) SameNames
      (dialect.types.length + dialect.builtinLabels.length + 13) setup := by
  have weakened {count : Nat} {update : Update Unit}
      (composed : Composed dialect (· ∈ identifierLabels) Predefines count update) :
      Composed dialect (· ∈ "" :: setupLabels dialect) SameNames count update := by
    refine composed.weaken
      (fun label listed => List.mem_cons_of_mem _ (identifier_mem_setupLabels listed)) ?_
    intro registry later predefines
    rw [predefines.others]
    exact ⟨rfl, rfl⟩
  -- The empty name and the verbatim base, eight identifiers and three placeholders come on top
  -- of the types and the built-ins.
  refine .more (.sequence (.intern List.mem_cons_self) fun _ =>
    .sequence (.change fun _ _ => ⟨rfl, rfl⟩) fun _ =>
    .sequence (composed_registerTypes dialect) fun _ =>
    .sequence (composed_registerBuiltins dialect) fun _ =>
    .sequence (weakened (composed_registerIdentifiers dialect)) fun _ =>
    .sequence (.change fun _ _ => ⟨rfl, rfl⟩) fun _ =>
      weakened (composed_registerPlaceholders dialect)) (by omega)

/-! ## The states that the setup leads through -/

/-- A registry that is taking in the types, after those of the list. -/
inductive TakesTypes (dialect : Dialect) : List Label → Registry → Prop where
  | start :
      TakesTypes dialect [] { ({ dialect } : Registry).defined "" with
        boundaries.beginTypes := if "" ∈ dialect.types then .empty else ⟨1⟩ }
  | unnamed {seen rest : List Label} {registry : Registry}
      (place : dialect.types = seen ++ "" :: rest) (earlier : TakesTypes dialect seen registry) :
      TakesTypes dialect (seen ++ [""])
        { registry with types := registry.types ++ [(.empty, "")] }
  | named {seen rest : List Label} {registry later : Registry} {label : Label} {name : Name}
      (place : dialect.types = seen ++ label :: rest) (earlier : TakesTypes dialect seen registry)
      (nonempty : label ≠ "") (done : intern label registry = .ok name later) :
      TakesTypes dialect (seen ++ [label])
        { later with types := later.types ++ [(name, label)] }

def separated (registry : Registry) : Registry :=
  { registry with
    boundaries :=
      { registry.boundaries with
        endTypes := registry.arena.next
        beginBuiltins := registry.arena.next } }

def recorded (registry : Registry) (name : Name) (definition : Builtin) : Registry :=
  { registry with
    builtins := Keyed.insert NamedBuiltin.name (registry.nameBuiltin name definition)
      registry.builtins }

def closed (registry : Registry) : Registry :=
  { registry with boundaries.endBuiltins := registry.arena.next }

theorem builtin?_recorded (registry : Registry) (name other : Name) (definition : Builtin) :
    (registry.recorded name definition).builtin? other =
      if name = other then some (registry.nameBuiltin name definition)
      else registry.builtin? other :=
  Keyed.find?_insert _ _ _ _

/-- A registry that is taking in the built-ins, after those of the list. The base of the
verbatim built-ins comes first. A built-in without a label is left out, and one without a
definition gets a name but no record. -/
inductive TakesBuiltins (dialect : Dialect) : List Label → Registry → Prop where
  | start {registry later : Registry} {verbatim : Name}
      (types : TakesTypes dialect dialect.types registry)
      (done : intern verbatimBaseLabel registry.separated = .ok verbatim later) :
      TakesBuiltins dialect [] { later with predefined.verbatim := verbatim }
  | unnamed {seen rest : List Label} {registry : Registry}
      (place : dialect.builtinLabels = seen ++ "" :: rest)
      (earlier : TakesBuiltins dialect seen registry) :
      TakesBuiltins dialect (seen ++ [""]) registry
  | undefined {seen rest : List Label} {registry later : Registry} {label : Label} {name : Name}
      (place : dialect.builtinLabels = seen ++ label :: rest)
      (earlier : TakesBuiltins dialect seen registry) (nonempty : label ≠ "")
      (done : intern label registry = .ok name later) (missing : dialect.builtin? label = none) :
      TakesBuiltins dialect (seen ++ [label]) later
  | defined {seen rest : List Label} {registry later : Registry} {label : Label} {name : Name}
      {definition : Builtin} (place : dialect.builtinLabels = seen ++ label :: rest)
      (earlier : TakesBuiltins dialect seen registry) (nonempty : label ≠ "")
      (done : intern label registry = .ok name later)
      (found : dialect.builtin? label = some definition) :
      TakesBuiltins dialect (seen ++ [label]) (later.recorded name definition)

/-- A registry that is taking in the identifiers or the placeholders. -/
inductive Identifies (first : Registry) : Registry → Prop where
  | start : Identifies first first
  | interned {registry later : Registry} {label : Label} {name : Name}
      (earlier : Identifies first registry) (listed : label ∈ identifierLabels)
      (done : intern label registry = .ok name later) : Identifies first later
  | predefined {registry : Registry} (earlier : Identifies first registry)
      (predefined : PredefinedNames)
      (same : predefined.verbatim = registry.predefined.verbatim) :
      Identifies first { registry with predefined }

/-! ### Before the range of built-ins is closed -/

/-- A registry of the dialect in which no built-in is found yet. -/
structure Unclosed (dialect : Dialect) (registry : Registry) : Prop where
  subject : registry.dialect = dialect
  consistent : registry.Consistent
  unclosed : registry.boundaries.endBuiltins = .empty

namespace Unclosed

variable {dialect : Dialect} {registry later : Registry} (unclosed : Unclosed dialect registry)

include unclosed

theorem growth (growth : Growth registry later) : Unclosed dialect later where
  subject := growth.evolves.dialect.trans unclosed.subject
  consistent := growth.consistent unclosed.consistent
  unclosed :=
    (congrArg Boundaries.endBuiltins growth.evolves.boundaries).trans unclosed.unclosed

theorem findBuiltin?_eq_none (label : Label) : registry.findBuiltin? label = none :=
  findBuiltin?_of_unclosed unclosed.unclosed label

theorem withTypes (types : List (Name × Label)) : Unclosed dialect { registry with types } :=
  { unclosed with consistent := { unclosed.consistent with } }

theorem separated : Unclosed dialect registry.separated :=
  { unclosed with consistent := { unclosed.consistent with } }

theorem withVerbatim {label : Label} {verbatim : Name}
    (done : intern label registry = .ok verbatim later) :
    Unclosed dialect { later with predefined.verbatim := verbatim } :=
  have known := unclosed.consistent.contains_intern done
  have grown := unclosed.growth (growth_of_intern done)
  { grown with consistent := { grown.consistent with verbatim := known } }

theorem recorded (name : Name) (definition : Builtin) :
    Unclosed dialect (registry.recorded name definition) :=
  { unclosed with consistent := { unclosed.consistent with } }

end Unclosed

private theorem Consistent.first (dialect : Dialect) :
    (({ dialect } : Registry).defined "").Consistent where
  arena := (Arena.valid_empty.withLabel "").append_defined
    (LabelTable.get?_position {} "")
  root := (Arena.label?_of_defined rfl).trans (LabelTable.get?_position {} "")
  verbatim := rfl
  builtins := Nat.zero_le _
  instances := fun _ _ member => absurd member (by simp [Registry.defined])

theorem TakesTypes.unclosed {dialect : Dialect} {seen : List Label} {registry : Registry}
    (takes : TakesTypes dialect seen registry) : Unclosed dialect registry := by
  induction takes with
  | start => exact ⟨rfl, { Consistent.first dialect with }, rfl⟩
  | unnamed _ _ induction => exact induction.withTypes _
  | named _ _ _ done induction => exact (induction.growth (growth_of_intern done)).withTypes _

theorem TakesBuiltins.unclosed {dialect : Dialect} {seen : List Label} {registry : Registry}
    (takes : TakesBuiltins dialect seen registry) : Unclosed dialect registry := by
  induction takes with
  | start types done => exact types.unclosed.separated.withVerbatim done
  | unnamed _ _ induction => exact induction
  | undefined _ _ _ done _ induction => exact induction.growth (growth_of_intern done)
  | defined _ _ _ done _ induction =>
      exact (induction.growth (growth_of_intern done)).recorded _ _

theorem TakesBuiltins.sound_closed {dialect : Dialect} {seen : List Label} {registry : Registry}
    (takes : TakesBuiltins dialect seen registry) : registry.closed.Sound :=
  have consistent := takes.unclosed.consistent
  { consistent with
    builtins := Nat.le_refl _
    base := Arena.lt_size consistent.verbatim }

theorem Identifies.sound {first registry : Registry} (identifies : Identifies first registry)
    (sound : first.Sound) : registry.dialect = first.dialect ∧ registry.Sound := by
  induction identifies with
  | start => exact ⟨rfl, sound⟩
  | interned _ _ done induction =>
      have growth := growth_of_intern done
      exact ⟨growth.evolves.dialect.trans induction.1, growth.sound induction.2⟩
  | predefined _ _ same induction =>
      exact ⟨induction.1, { induction.2 with
        verbatim := same ▸ induction.2.verbatim
        base := same ▸ induction.2.base }⟩

/-! ### The setup leads through these states -/

private theorem takesTypes_of_registerType {dialect : Dialect} {seen rest : List Label}
    {label : Label} {registry later : Registry} (place : dialect.types = seen ++ label :: rest)
    (takes : TakesTypes dialect seen registry)
    (done : registerType label registry = .ok () later) :
    TakesTypes dialect (seen ++ [label]) later := by
  by_cases empty : label = ""
  · subst empty
    cases done
    exact .unnamed place takes
  · rw [registerType, if_neg empty] at done
    rcases sequence_eq_ok done with ⟨name, middle, interned, listed⟩
    cases listed
    exact .named place takes empty interned

private theorem takesBuiltins_of_registerBuiltin {dialect : Dialect} {seen rest : List Label}
    {label : Label} {registry later : Registry}
    (place : dialect.builtinLabels = seen ++ label :: rest)
    (takes : TakesBuiltins dialect seen registry)
    (done : registerBuiltin label registry = .ok () later) :
    TakesBuiltins dialect (seen ++ [label]) later := by
  by_cases empty : label = ""
  · subst empty
    cases done
    exact .unnamed place takes
  · rw [registerBuiltin, if_pos empty] at done
    rcases sequence_eq_ok done with ⟨name, middle, interned, rest⟩
    have subject := (takes.unclosed.growth (growth_of_intern interned)).subject
    rw [get_sequence, subject] at rest
    cases found : dialect.builtin? label with
    | some definition =>
        rw [found] at rest
        cases rest
        exact .defined place takes empty interned found
    | none =>
        rw [found] at rest
        cases rest
        exact .undefined place takes empty interned found

private theorem takesTypes_of_registerTypes {dialect : Dialect} {later : Registry}
    (done : registerTypes (({ dialect } : Registry).defined "") = .ok () later) :
    ∃ filled, TakesTypes dialect dialect.types filled ∧
      later = { filled with boundaries.endTypes := filled.arena.next } := by
  rcases @sequence_eq_ok _ _ (dialect.types.forM registerType) _
    { ({ dialect } : Registry).defined "" with
      boundaries.beginTypes := if "" ∈ dialect.types then .empty else ⟨1⟩ } _ _ done
    with ⟨_, filled, registered, ended⟩
  cases ended
  exact ⟨filled, holds_of_forM (fun _ _ _ _ _ => takesTypes_of_registerType) .start registered,
    rfl⟩

private theorem takesBuiltins_of_registerBuiltins {dialect : Dialect} {filled later : Registry}
    (types : TakesTypes dialect dialect.types filled)
    (done : registerBuiltins { filled with boundaries.endTypes := filled.arena.next } =
      .ok () later) :
    ∃ built, TakesBuiltins dialect dialect.builtinLabels built ∧ later = built.closed := by
  have subject := types.unclosed.subject
  subst subject
  rcases @sequence_eq_ok _ _ (intern verbatimBaseLabel) _ filled.separated _ _ done with
    ⟨verbatim, middle, interned, rest⟩
  rcases @sequence_eq_ok _ _ _ _ { middle with predefined.verbatim := verbatim } _ _ rest with
    ⟨_, built, registered, closed⟩
  cases closed
  exact ⟨built, holds_of_forM (fun _ _ _ _ _ => takesBuiltins_of_registerBuiltin)
    (.start types interned) registered, rfl⟩

private theorem identifies_of_composed {dialect : Dialect} {count : Nat} {update : Update Unit}
    {registry later : Registry}
    (composed : Composed dialect (· ∈ identifierLabels) Predefines count update)
    (subject : registry.dialect = dialect) (done : update registry = .ok () later) :
    Identifies registry later := by
  let Reached (current : Registry) : Prop := current.dialect = dialect ∧ Identifies registry current
  have reached : Reached later := by
    refine composed.keeps (fun _ holds => holds.1) ?_ ?_ ⟨subject, .start⟩ done
    · intro label current name next listed holds interned
      exact ⟨(growth_of_intern interned).evolves.dialect.trans holds.1,
        .interned holds.2 listed interned⟩
    · intro current next predefines holds
      rw [predefines.others]
      exact ⟨holds.1, .predefined holds.2 next.predefined predefines.verbatim⟩
  exact reached.2

theorem present?_first (dialect : Dialect) : ({ dialect } : Registry).present? "" = none := by
  unfold present?
  split
  · rfl
  · simp [find?, Arena.carrier?, LabelTable.find?]

private theorem intern_first {dialect : Dialect} {name : Name} {later : Registry}
    (done : intern "" { dialect } = .ok name later) :
    name = .empty ∧ later = ({ dialect } : Registry).defined "" := by
  rcases dialect.ordinary_or_verbatim "" with ordinary | ⟨definition, found, verbatim⟩
  · exact intern_eq_ok_of_absent ordinary (present?_first dialect) done
  · rw [intern_verbatim found verbatim] at done
    rcases verbatimInstance_eq_ok done with ⟨made, -⟩ | ⟨-, base, linked, -⟩
    · exact absurd made (by simp)
    · exact absurd linked (by simp [base?, Arena.base?, Arena.size, Arena.follow])

/-- The phases of a setup that succeeds. -/
theorem phases_of_ofDialect {dialect : Dialect} {registry : Registry}
    (built : ofDialect dialect = .ok registry) :
    ∃ filled identified, TakesBuiltins dialect dialect.builtinLabels filled ∧
      Identifies filled.closed identified ∧
      Identifies { identified with operations := identified.operationTable } registry := by
  unfold ofDialect at built
  split at built
  · next succeeded =>
      cases built
      rcases sequence_eq_ok succeeded with ⟨name, first, interned, rest⟩
      rcases intern_first interned with ⟨rfl, rfl⟩
      rcases @sequence_eq_ok _ _ registerTypes _ (({ dialect } : Registry).defined "") _ _ rest with
        ⟨_, typed, types, rest⟩
      rcases takesTypes_of_registerTypes types with ⟨listed, takesTypes, rfl⟩
      rcases sequence_eq_ok rest with ⟨_, closed, builtins, rest⟩
      rcases takesBuiltins_of_registerBuiltins takesTypes builtins with ⟨filled, takes, rfl⟩
      rcases sequence_eq_ok rest with ⟨_, identified, identifiers, rest⟩
      have begun : filled.closed.dialect = dialect := takes.unclosed.subject
      have identifies :=
        identifies_of_composed (composed_registerIdentifiers dialect) begun identifiers
      rcases @sequence_eq_ok _ _ registerOperations _ _ _ _ rest with
        ⟨_, entered, operations, placeholders⟩
      cases operations
      have subject :
          { identified with operations := identified.operationTable }.dialect = dialect :=
        (identifies.sound takes.sound_closed).1.trans begun
      exact ⟨filled, identified, takes, identifies,
        identifies_of_composed (composed_registerPlaceholders dialect) subject placeholders⟩
  · exact absurd built (by simp)

/-! ## The finished registry -/

/-- What holds once the range of built-ins is closed, and is kept by the phases that follow,
holds of the finished registry. -/
theorem holds_of_closed {dialect : Dialect} {Property : Registry → Prop} {registry : Registry}
    (built : ofDialect dialect = .ok registry)
    (closed : ∀ filled, TakesBuiltins dialect dialect.builtinLabels filled → Property filled.closed)
    (interned : ∀ label ∈ identifierLabels, ∀ registry name later, registry.dialect = dialect →
      registry.Sound → intern label registry = .ok name later → Property registry →
      Property later)
    (predefined : ∀ registry predefined, predefined.verbatim = registry.predefined.verbatim →
      Property registry → Property { registry with predefined })
    (operations : ∀ registry operations, Property registry →
      Property { registry with operations }) : Property registry := by
  have identified {first later : Registry} (subject : first.dialect = dialect)
      (sound : first.Sound) (identifies : Identifies first later) (holds : Property first) :
      Property later := by
    induction identifies with
    | start => exact holds
    | interned earlier listed done induction =>
        rcases earlier.sound sound with ⟨same, earlierSound⟩
        exact interned _ listed _ _ _ (same.trans subject) earlierSound done induction
    | predefined _ changed same induction => exact predefined _ changed same induction
  rcases phases_of_ofDialect built with ⟨filled, middle, takes, first, second⟩
  have subject : filled.closed.dialect = dialect := takes.unclosed.subject
  rcases first.sound takes.sound_closed with ⟨same, sound⟩
  have filledTable : { middle with operations := middle.operationTable }.Sound := { sound with }
  have holds := identified subject takes.sound_closed first (closed filled takes)
  exact @identified { middle with operations := middle.operationTable } _ (same.trans subject)
    filledTable second (operations middle _ holds)

theorem sound_ofDialect {dialect : Dialect} {registry : Registry}
    (built : ofDialect dialect = .ok registry) : registry.dialect = dialect ∧ registry.Sound := by
  rcases phases_of_ofDialect built with ⟨filled, middle, takes, first, second⟩
  rcases first.sound takes.sound_closed with ⟨middleSubject, middleSound⟩
  rcases second.sound { middleSound with } with ⟨subject, sound⟩
  exact ⟨(subject.trans middleSubject).trans takes.unclosed.subject, sound⟩

end NameRegistry.Registry
