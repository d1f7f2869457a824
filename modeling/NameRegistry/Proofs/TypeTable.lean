import NameRegistry.Proofs.SetupLabels

/-! # The table of types

The names of the types are listed in the order of their declaration, and they are exactly the
names of the range of types. So a type is found in the table by its name. A variant of a type
is not listed: it is classified by what it goes back to, and only that is found.
-/

namespace NameRegistry.Registry

/-! ## The name of a type -/

/-- What the name of a label is before the range of built-ins is closed: one that is there,
or the only new one. -/
private structure Answered (registry later : Registry) (label : Label) (name : Name) : Prop where
  nonempty : name ≠ .empty
  names : ∀ other, later.contains other = true ↔ registry.contains other = true ∨ other = name
  labelled : registry.dialect.Ordinary label → later.arena.label? name = some label
  instances : ∀ arity other, (arity, other) ∈ later.instances →
    (arity, other) ∈ registry.instances ∨ other = name

private theorem answered_of_present {registry : Registry} {label : Label} {name : Name}
    (inside : registry.contains name = true) (nonempty : name ≠ .empty)
    (labelled : registry.dialect.Ordinary label → registry.arena.label? name = some label) :
    Answered registry registry label name where
  nonempty := nonempty
  names := by
    intro other
    constructor
    · exact .inl
    · intro given
      rcases given with before | rfl
      · exact before
      · exact inside
  labelled := labelled
  instances := fun _ _ => .inl

private theorem Answered.nonempty_names {registry later : Registry} {label : Label} {name : Name}
    (answered : Answered registry later label name) (other : Name) :
    other ≠ .empty ∧ later.contains other = true ↔
      other ≠ .empty ∧ registry.contains other = true ∨ other = name := by
  rw [answered.names]
  constructor
  · intro given
    rcases given with ⟨notFirst, before | new⟩
    · exact .inl ⟨notFirst, before⟩
    · exact .inr new
  · intro given
    rcases given with ⟨notFirst, before⟩ | rfl
    · exact ⟨notFirst, .inl before⟩
    · exact ⟨answered.nonempty, .inr rfl⟩

private theorem Consistent.next_ne_empty {registry : Registry} (consistent : registry.Consistent) :
    registry.arena.next ≠ .empty :=
  (Arena.ne_next (Arena.contains_of_label? consistent.root)).symm

private theorem answered_of_intern {dialect : Dialect} {registry later : Registry} {label : Label}
    {name : Name} (unclosed : Unclosed dialect registry)
    (instances : ∀ arity other, (arity, other) ∈ registry.instances → other ≠ .empty)
    (nonempty : label ≠ "") (done : intern label registry = .ok name later) :
    Answered registry later label name := by
  have consistent := unclosed.consistent
  rcases registry.dialect.ordinary_or_verbatim label with
    ordinary | ⟨definition, found, verbatim⟩
  · rcases intern_eq_ok ordinary done with ⟨present, rfl⟩ | ⟨-, rfl, rfl⟩
    · have carried : later.arena.label? name = some label := by
        unfold present? at present
        split at present
        · exact absurd (present.symm.trans (unclosed.findBuiltin?_eq_none label)) (by simp)
        · exact label?_of_find? present
      refine answered_of_present (Arena.contains_of_label? carried) (fun first => ?_)
        fun _ => carried
      subst first
      exact nonempty (Option.some.inj (carried.symm.trans consistent.root))
    · exact
        { nonempty := consistent.next_ne_empty
          names := fun _ => Arena.contains_append_iff (registry.arena.withLabel label) _
          labelled := fun _ => label?_defined_next consistent.arena
          instances := fun _ _ => .inl }
  · have notOrdinary : ¬registry.dialect.Ordinary label := fun ordinary =>
      absurd (verbatim.symm.trans (ordinary definition found)) (by simp)
    rw [intern_verbatim found verbatim] at done
    rcases verbatimInstance_eq_ok done with ⟨made, rfl⟩ | ⟨rfl, base, -, rfl⟩
    · have member := Keyed.mem_of_lookup made
      exact answered_of_present (consistent.instances _ _ member) (instances _ _ member)
        fun ordinary => absurd ordinary notOrdinary
    · refine
        { nonempty := consistent.next_ne_empty
          names := fun _ => Arena.contains_append_iff registry.arena _
          labelled := fun ordinary => absurd ordinary notOrdinary
          instances := fun arity other member => ?_ }
      rcases List.mem_append.mp member with old | new
      · exact .inl old
      · cases List.mem_singleton.mp new
        exact .inr rfl

/-! ## While the types are taken in -/

/-- A registry that has taken in some types. All its names are theirs, but for the first one,
which is the unnamed type's. -/
private structure Declaring (dialect : Dialect) (seen : List Label) (registry : Registry) : Prop
    extends Unclosed dialect registry where
  begin : registry.boundaries.beginTypes = dialect.boundaries.beginTypes
  declared : registry.types.map (·.2) = seen
  listed : ∀ name, name ∈ registry.types.map (·.1) ↔
    name = .empty ∧ "" ∈ seen ∨ name ≠ .empty ∧ registry.contains name = true
  labelled : ∀ name label, (name, label) ∈ registry.types → dialect.Ordinary label →
    registry.arena.label? name = some label
  instances : ∀ arity name, (arity, name) ∈ registry.instances → name ≠ .empty

namespace Declaring

variable {dialect : Dialect} {seen : List Label} {registry later : Registry} {label : Label}
  (declaring : Declaring dialect seen registry)

include declaring

private theorem unnamed :
    Declaring dialect (seen ++ [""])
      { registry with types := registry.types ++ [(.empty, "")] } where
  toUnclosed := declaring.toUnclosed.withTypes _
  begin := declaring.begin
  declared := by
    rw [List.map_append, declaring.declared]
    rfl
  listed := by
    intro name
    rw [List.map_append, List.mem_append, declaring.listed name]
    by_cases first : name = .empty <;> simp [first, Registry.contains]
  labelled := by
    intro name label member ordinary
    rcases List.mem_append.mp member with old | new
    · exact declaring.labelled name label old ordinary
    · cases List.mem_singleton.mp new
      exact declaring.consistent.root
  instances := declaring.instances

private theorem named {name : Name} (nonempty : label ≠ "")
    (done : intern label registry = .ok name later) :
    Declaring dialect (seen ++ [label])
      { later with types := later.types ++ [(name, label)] } := by
  have growth := growth_of_intern done
  have grown := declaring.toUnclosed.growth growth
  have answered := answered_of_intern declaring.toUnclosed declaring.instances nonempty done
  have types : later.types = registry.types := growth.evolves.types
  rw [types]
  refine ⟨grown.withTypes _, ?_, ?_, ?_, ?_, ?_⟩
  · exact (congrArg Boundaries.beginTypes growth.evolves.boundaries).trans declaring.begin
  · rw [List.map_append, declaring.declared]
    rfl
  · intro other
    have unnamed : "" ∈ seen ++ [label] ↔ "" ∈ seen := by simp [Ne.symm nonempty]
    rw [List.map_append, List.mem_append, declaring.listed other, unnamed, or_assoc]
    simpa [Registry.contains] using or_congr_right (answered.nonempty_names other).symm
  · intro other text member ordinary
    rcases List.mem_append.mp member with old | new
    · exact growth.label?_of_carried declaring.consistent.arena
        (declaring.labelled other text old ordinary)
    · cases List.mem_singleton.mp new
      exact answered.labelled (declaring.subject ▸ ordinary)
  · intro arity other member
    rcases answered.instances arity other member with old | rfl
    · exact declaring.instances arity other old
    · exact answered.nonempty

omit declaring in
private theorem start (dialect : Dialect) :
    Declaring dialect [] { ({ dialect } : Registry).defined "" with
      boundaries.beginTypes := dialect.boundaries.beginTypes } where
  toUnclosed := (TakesTypes.start : TakesTypes dialect [] _).unclosed
  begin := rfl
  declared := rfl
  listed := by
    intro name
    have alone : (({} : Arena).withLabel "").contains name = true ∨ name = .empty ↔
        name = .empty := by
      simp [Arena.contains, Arena.withLabel, Arena.size]
    have inside := (Arena.contains_append_iff (({} : Arena).withLabel "")
      (.defined (({} : Arena).labels.position ""))).trans alone
    constructor
    · intro member
      exact absurd member List.not_mem_nil
    · intro given
      rcases given with ⟨-, member⟩ | ⟨notFirst, known⟩
      · exact absurd member List.not_mem_nil
      · exact absurd (inside.mp known) notFirst
  labelled := fun _ _ member => absurd member List.not_mem_nil
  instances := fun _ _ member => absurd member List.not_mem_nil

end Declaring

private theorem TakesTypes.declaring {dialect : Dialect} {seen : List Label} {registry : Registry}
    (takes : TakesTypes dialect seen registry) : Declaring dialect seen registry := by
  induction takes with
  | start => exact .start dialect
  | unnamed _ _ induction => exact induction.unnamed
  | named _ _ nonempty done induction => exact induction.named nonempty done

/-! ## The range of types -/

/-- The types are listed in the order of their declaration. Their names are those of the range
of types, and each carries the label that it is listed with, unless that label stands for a
verbatim built-in. -/
structure TypesListed (registry : Registry) : Prop where
  declared : registry.types.map (·.2) = registry.dialect.types
  listed : ∀ name, name ∈ registry.types.map (·.1) ↔
    registry.boundaries.containsType name = true
  labelled : ∀ name label, (name, label) ∈ registry.types → registry.dialect.Ordinary label →
    registry.arena.label? name = some label

private theorem Declaring.typesListed {dialect : Dialect} {registry : Registry}
    (declaring : Declaring dialect dialect.types registry) :
    registry.separated.TypesListed where
  declared := declaring.declared.trans (congrArg Dialect.types declaring.subject).symm
  listed := by
    intro name
    have root : Name.empty < registry.arena.next :=
      Arena.lt_size (Arena.contains_of_label? declaring.consistent.root)
    have inside : registry.contains name = true ↔ name < registry.arena.next :=
      ⟨Arena.lt_size, Arena.contains_of_lt⟩
    refine (declaring.listed name).trans ?_
    have begin : registry.separated.boundaries.beginTypes =
        if "" ∈ dialect.types then .empty else ⟨1⟩ := declaring.begin
    have ends : registry.separated.boundaries.endTypes = registry.arena.next := rfl
    rw [Boundaries.containsType, decide_eq_true_iff, begin, ends]
    by_cases first : name = .empty
    · subst first
      have low : (if "" ∈ dialect.types then Name.empty else ⟨1⟩) ≤ Name.empty ↔
          "" ∈ dialect.types := by
        split <;> simp_all [Name.le_def, Name.empty]
      simp [low, root]
    · have low : (if "" ∈ dialect.types then Name.empty else ⟨1⟩) ≤ name := by
        split
        · exact Nat.zero_le _
        · exact Nat.pos_of_ne_zero fun zero => first (congrArg Name.mk zero)
      simp [low, first, inside]
  labelled := fun name label member ordinary =>
    declaring.labelled name label member (declaring.subject ▸ ordinary)

/-! ## While the built-ins are taken in -/

private structure TypesIn (dialect : Dialect) (registry : Registry) : Prop
    extends Unclosed dialect registry, TypesListed registry where
  ends : registry.boundaries.endTypes ≤ registry.arena.next

private theorem TypesIn.growth {dialect : Dialect} {registry later : Registry}
    (typesIn : TypesIn dialect registry) (growth : Growth registry later) :
    TypesIn dialect later where
  toUnclosed := typesIn.toUnclosed.growth growth
  declared := by
    rw [growth.evolves.types, growth.evolves.dialect]
    exact typesIn.declared
  listed := by
    rw [growth.evolves.types, growth.evolves.boundaries]
    exact typesIn.listed
  labelled := by
    rw [growth.evolves.types, growth.evolves.dialect]
    exact fun name label member ordinary =>
      growth.label?_of_carried typesIn.consistent.arena
        (typesIn.labelled name label member ordinary)
  ends := by
    rw [growth.evolves.boundaries]
    exact Nat.le_trans (Name.le_def.mp typesIn.ends) growth.evolves.size

private theorem TakesBuiltins.typesIn {dialect : Dialect} {seen : List Label} {registry : Registry}
    (takes : TakesBuiltins dialect seen registry) : TypesIn dialect registry := by
  induction takes with
  | start types done =>
      have begun : TypesIn dialect (separated _) :=
        { types.unclosed.separated, types.declaring.typesListed with ends := Nat.le_refl _ }
      have grown := begun.growth (growth_of_intern done)
      exact { grown with toUnclosed := begun.toUnclosed.withVerbatim done }
  | unnamed _ _ induction => exact induction
  | undefined _ _ _ done _ induction => exact induction.growth (growth_of_intern done)
  | defined _ _ _ done _ induction =>
      have grown := induction.growth (growth_of_intern done)
      exact { grown with toUnclosed := grown.toUnclosed.recorded _ _ }

/-! ## The finished registry -/

/-- The types come before the built-ins, so their names are never given other labels. -/
structure TypeTable (registry : Registry) : Prop extends TypesListed registry where
  before : registry.boundaries.endTypes ≤ registry.boundaries.endBuiltins

private theorem TakesBuiltins.typeTable {dialect : Dialect} {filled : Registry}
    (takes : TakesBuiltins dialect dialect.builtinLabels filled) : filled.closed.TypeTable :=
  have typesIn := takes.typesIn
  { declared := typesIn.declared
    listed := typesIn.listed
    labelled := typesIn.labelled
    before := typesIn.ends }

private theorem TypeTable.continued {registry later : Registry} (table : registry.TypeTable)
    (continuation : registry.Continuation later) (sound : registry.Sound) : later.TypeTable where
  declared := by
    rw [continuation.types, continuation.dialect]
    exact table.declared
  listed := by
    rw [continuation.types, continuation.boundaries]
    exact table.listed
  labelled := by
    intro name label member ordinary
    rw [continuation.types] at member
    rw [continuation.dialect] at ordinary
    have inRange := (table.listed name).mp (List.mem_map_of_mem member)
    rw [Boundaries.containsType, decide_eq_true_iff] at inRange
    have less : name < registry.boundaries.endBuiltins := Nat.lt_of_lt_of_le inRange.2 table.before
    exact (continuation.toEvolves.arenaLabel?_eq sound.arena (continuation.fixed name less)).trans
      (table.labelled name label member ordinary)
  before := continuation.boundaries ▸ table.before

theorem Reachable.typeTable {dialect : Dialect} {registry : Registry}
    (reachable : Reachable dialect registry) : registry.TypeTable :=
  reachable.holds_of_closed (fun _ takes => takes.typeTable) (fun _ _ _ table => { table with })
    (fun _ _ table => { table with })
    fun _ _ sound continuation table => table.continued continuation sound

/-! ## Where types are found -/

theorem operation_of_typeIndex {registry : Registry} {type : Name} {position : Nat}
    (found : registry.typeIndex type = .ok position) (operation : TypeOperation) :
    registry.operationName operation type = .ok (registry.operations.get? operation position) ∧
      registry.operation operation type =
        .ok ((registry.operations.get? operation position).bind registry.builtin?) := by
  simp only [Registry.operation, operationName, found, Except.map, and_self]

private theorem operation_of_unknown {registry : Registry} {type : Name} {error : NameError}
    (unknown : registry.typeIndex type = .error error) (operation : TypeOperation) :
    registry.operationName operation type = .error error ∧
      registry.operation operation type = .error error := by
  simp only [Registry.operation, operationName, unknown, Except.map, and_self]

theorem mem_types_of_findType? {registry : Registry} {label : Label} {type : Name}
    (found : registry.findType? label = some type) : (type, label) ∈ registry.types := by
  rcases Option.map_eq_some_iff.mp found with ⟨⟨name, text⟩, first, rfl⟩
  have same : text = label := by simpa using List.find?_some first
  exact same ▸ List.mem_of_find?_eq_some first

theorem exists_findType?_of_mem {registry : Registry} {label : Label}
    (declared : label ∈ registry.types.map (·.2)) :
    ∃ type, registry.findType? label = some type ∧ (type, label) ∈ registry.types := by
  rcases List.mem_map.mp declared with ⟨entry, member, isLabel⟩
  have present : (registry.findType? label).isSome := by
    rw [findType?, Option.isSome_map, List.find?_isSome]
    exact ⟨entry, member, by simpa using isLabel⟩
  rcases Option.isSome_iff_exists.mp present with ⟨type, found⟩
  exact ⟨type, found, mem_types_of_findType? found⟩

namespace TypesListed

variable {registry : Registry} (listed : registry.TypesListed) {name : Name}

include listed

theorem typeIndex_of_contained (inRange : registry.boundaries.containsType name = true) :
    ∃ position label, registry.typeIndex name = .ok position ∧
      registry.types[position]? = some (name, label) := by
  have member := (listed.listed name).mpr inRange
  rw [typeIndex, if_neg (by rintro empty; simp_all)]
  cases found : registry.types.findIdx? (·.1 = name) with
  | none =>
      rcases List.mem_map.mp member with ⟨entry, present, rfl⟩
      exact absurd (List.findIdx?_eq_none_iff.mp found entry present) (by simp)
  | some position =>
      rcases List.findIdx?_eq_some_iff_getElem.mp found with ⟨inside, same, -⟩
      have named : registry.types[position].1 = name := by simpa using same
      exact ⟨position, registry.types[position].2, rfl,
        (List.getElem?_eq_getElem inside).trans (congrArg (fun name =>
          some (name, registry.types[position].2)) named)⟩

private theorem typeIndex_of_not_contained (typed : registry.dialect.types ≠ [])
    (outside : registry.boundaries.containsType name = false) :
    registry.typeIndex name = .error (.unknownType name) := by
  have some : registry.types ≠ [] := fun none => typed (by rw [← listed.declared, none]; rfl)
  have absent : registry.types.findIdx? (·.1 = name) = none := by
    rw [List.findIdx?_eq_none_iff]
    intro entry present
    have inRange := (listed.listed entry.1).mp (List.mem_map_of_mem present)
    rw [decide_eq_false_iff_not]
    rintro rfl
    exact absurd (inRange.symm.trans outside) (by simp)
  rw [typeIndex, if_neg (by simpa using some), absent]

private theorem isDerived_of_contained (ordinary : ∀ label ∈ registry.dialect.types,
    registry.dialect.Ordinary label) (inRange : registry.boundaries.containsType name = true) :
    registry.isDerived name = false := by
  rcases List.mem_map.mp ((listed.listed name).mpr inRange) with ⟨⟨type, label⟩, present, rfl⟩
  have declared : label ∈ registry.dialect.types := by
    rw [← listed.declared]
    exact List.mem_map_of_mem present
  rcases Arena.label?_eq_some_iff.mp (listed.labelled type label present (ordinary label declared))
    with ⟨position, defined, -⟩
  simp only [isDerived, state?, defined]

end TypesListed

private theorem TypeTable.isType_of_not_derived {registry : Registry} (table : registry.TypeTable)
    (sound : registry.Sound) {name : Name} (notDerived : registry.isDerived name = false) :
    registry.isType name = registry.boundaries.containsType name := by
  unfold isType
  cases known : registry.state? name with
  | none =>
      have base : registry.base? name = none := Arena.base?_of_unknown known
      rw [base, Option.any_none, eq_comm, Boundaries.containsType, decide_eq_false_iff_not]
      intro inRange
      have less : name < registry.boundaries.endBuiltins :=
        Nat.lt_of_lt_of_le inRange.2 table.before
      rcases Arena.contains_iff.mp (sound.contains_of_lt less) with ⟨state, found⟩
      exact absurd (found.symm.trans known) (by simp)
  | some state =>
      cases state with
      | defined position =>
          have base : registry.base? name = some name := Arena.base?_of_defined known
          rw [base, Option.any_some]
      | derived base => simp [isDerived, known] at notDerived

/-! ## The guarantee -/

/-- The position of a type is found exactly for the names of the range of types. A name that is
not derived is a type if it is one of these, and unless a type has the label of a verbatim
built-in, no other name is. What a type goes back to is always found, and so are its special
operations. -/
theorem typeIndex_found_iff {dialect : Dialect} {registry : Registry}
    (reachable : Reachable dialect registry) (typed : dialect.types ≠ []) :
    (∀ name, (∃ position, registry.typeIndex name = .ok position) ↔
      registry.boundaries.containsType name = true) ∧
    (∀ name, registry.boundaries.containsType name = false →
      registry.typeIndex name = .error (.unknownType name) ∧ ∀ operation,
        registry.operationName operation name = .error (.unknownType name) ∧
        registry.operation operation name = .error (.unknownType name)) ∧
    (∀ name, registry.isDerived name = false →
      registry.isType name = registry.boundaries.containsType name) ∧
    (∀ name, registry.isType name = true →
      ∃ base position, registry.base? name = some base ∧ registry.isType base = true ∧
        registry.typeIndex base = .ok position ∧ ∀ operation,
          registry.operationName operation base =
            .ok (registry.operations.get? operation position) ∧
          registry.operation operation base =
            .ok ((registry.operations.get? operation position).bind registry.builtin?)) ∧
    ((∀ label ∈ dialect.types, dialect.Ordinary label) → ∀ name,
      ((∃ position, registry.typeIndex name = .ok position) ↔
        registry.isType name = true ∧ registry.isDerived name = false)) := by
  have table := reachable.typeTable
  rcases reachable.sound with ⟨rfl, sound⟩
  have unknown {name : Name} (outside : registry.boundaries.containsType name = false) :=
    table.typeIndex_of_not_contained typed outside
  have found (name : Name) : (∃ position, registry.typeIndex name = .ok position) ↔
      registry.boundaries.containsType name = true := by
    constructor
    · intro given
      rcases given with ⟨position, found⟩
      cases inRange : registry.boundaries.containsType name with
      | true => rfl
      | false => exact absurd (found.symm.trans (unknown inRange)) (by simp)
    · intro inRange
      rcases table.typeIndex_of_contained inRange with ⟨position, label, found, -⟩
      exact ⟨position, found⟩
  have itself {name : Name} (notDerived : registry.isDerived name = false) :=
    table.isType_of_not_derived sound notDerived
  refine ⟨found, fun name outside => ⟨unknown outside, operation_of_unknown (unknown outside)⟩,
    fun name => itself, fun name classified => ?_, fun ordinary name => ?_⟩
  · rw [isType, Option.any_eq_true] at classified
    rcases classified with ⟨base, linked, inRange⟩
    rcases table.typeIndex_of_contained inRange with ⟨position, label, found, -⟩
    have root : registry.base? base = some base := sound.arena.base?_base linked
    exact ⟨base, position, linked, by rw [isType, root, Option.any_some, inRange], found,
      operation_of_typeIndex found⟩
  · rw [found]
    constructor
    · intro inRange
      have notDerived := table.isDerived_of_contained ordinary inRange
      exact ⟨(itself notDerived).trans inRange, notDerived⟩
    · intro given
      exact (itself given.2).symm.trans given.1

/-- A variant of a type is not found, while the type that it goes back to is. Once the variant
has a label of its own, it is no type any more. -/
theorem typeIndex_of_type_and_variants :
    ∃ registry, Reachable .typed registry ∧
      (registry.isType ⟨21⟩ = true ∧
        ¬∃ position, registry.typeIndex ⟨21⟩ = .ok position) ∧
      (∃ base position, registry.base? ⟨21⟩ = some base ∧
        registry.typeIndex base = .ok position) ∧
      (registry.isDerived ⟨22⟩ = false ∧ registry.isType ⟨22⟩ = false) := by
  have passed : reaches .typed [.derive ⟨1⟩, .derive ⟨2⟩, .assignLabels [⟨22⟩] []]
      (fun registry => decide (registry.isType ⟨21⟩ = true ∧ registry.isDerived ⟨21⟩ = true ∧
        registry.isDerived ⟨22⟩ = false ∧
        registry.boundaries.containsType ⟨22⟩ = false)) = true := by
    decide +kernel
  rcases exists_of_reaches passed with ⟨start, built, tested⟩
  rcases of_decide_eq_true tested with ⟨classified, derived, own, outside⟩
  have reachable := (Reachable.start built).run
    [.derive ⟨1⟩, .derive ⟨2⟩, .assignLabels [⟨22⟩] []]
  rcases typeIndex_found_iff reachable (by decide +kernel) with ⟨-, -, itself, resolved, only⟩
  have ordinary : ∀ label ∈ Dialect.typed.types, Dialect.typed.Ordinary label := by
    intro label declared
    exact Dialect.wellFormed_typed.toUnambiguous.ordinary_setupLabels
      (type_mem_setupLabels declared)
  refine ⟨_, reachable, ⟨classified, fun found => ?_⟩, ?_, own, (itself ⟨22⟩ own).trans outside⟩
  · exact absurd (derived.symm.trans ((only ordinary ⟨21⟩).mp found).2) (by simp)
  · rcases resolved ⟨21⟩ classified with ⟨base, position, linked, -, found, -⟩
    exact ⟨base, position, linked, found⟩

/-- To be a type is not enough for the position to be found. -/
theorem typeIndex_refuses_variant :
    ∃ registry, Reachable .typed registry ∧ Dialect.typed.types ≠ [] ∧
      (∀ label ∈ Dialect.typed.types, Verbatim.ofLabel? label = none) ∧
      registry.contains ⟨21⟩ = true ∧ registry.isType ⟨21⟩ = true ∧
      registry.typeIndex ⟨21⟩ = .error (.unknownType ⟨21⟩) ∧ ∀ operation,
        registry.operationName operation ⟨21⟩ = .error (.unknownType ⟨21⟩) ∧
        registry.operation operation ⟨21⟩ = .error (.unknownType ⟨21⟩) := by
  have passed : reaches .typed [.derive ⟨1⟩]
      (fun registry => decide (registry.contains ⟨21⟩ = true ∧ registry.isType ⟨21⟩ = true ∧
        registry.types.isEmpty = false ∧
        registry.types.findIdx? (·.1 = ⟨21⟩) = none)) = true := by
    decide +kernel
  rcases exists_of_reaches passed with ⟨start, built, tested⟩
  rcases of_decide_eq_true tested with ⟨inside, classified, typed, absent⟩
  have unknown : (run [.derive ⟨1⟩] start).typeIndex ⟨21⟩ = .error (.unknownType ⟨21⟩) := by
    rw [typeIndex, typed, absent]
    rfl
  exact ⟨_, (Reachable.start built).run [.derive ⟨1⟩], by decide +kernel, by decide +kernel,
    inside, classified, unknown, operation_of_unknown unknown⟩

end NameRegistry.Registry
