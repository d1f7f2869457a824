import NameRegistry.Dialect.Presets
import NameRegistry.Proofs.SharedLabels
import NameRegistry.Proofs.TypeTable

/-! # The operations of a dialect by name

A special operation of a type is looked up by the type's position in a table of names, and the
name has a record. The table is filled by looking the definitions of the dialect up by label,
and the range of built-ins holds each label with the record of its own definition. So the
record that is found is the one of the definition that the dialect gives.
-/

namespace NameRegistry

namespace Dialect

/-- The definition is the one of an enumerated built-in. -/
def Enumerates (dialect : Dialect) (definition : Builtin) : Prop :=
  ∃ label ∈ dialect.builtinLabels, dialect.builtin? label = some definition

/-- No built-in of a tabular dialect has the empty label or the one of the verbatim base, and
none and no type has the label of a verbatim built-in. Every definition that the dialect gives
for an operation is found under its label. -/
private structure Plain (dialect : Dialect) : Prop extends Tabular dialect where
  nonempty : "" ∉ dialect.builtinLabels
  notBase : verbatimBaseLabel ∉ dialect.builtinLabels
  notVerbatim : ∀ label ∈ dialect.types ++ dialect.builtinLabels, Verbatim.ofLabel? label = none
  negation : ∀ definition, dialect.negation? = some definition →
    dialect.builtin? definition.name = some definition
  operation : ∀ operation label definition, dialect.operation? operation label = some definition →
    dialect.builtin? definition.name = some definition

private theorem Plain.ordinary {dialect : Dialect} (plain : dialect.Plain) {label : Label}
    (listed : label ∈ dialect.types ++ dialect.builtinLabels) : dialect.Ordinary label :=
  plain.ordinary_of_unread (plain.notVerbatim label listed)

private theorem plain_ofDeclarations {declarations : List Declaration}
    (builtins : ∀ label ∈ (ofDeclarations declarations).builtinLabels,
      label ≠ "" ∧ label ≠ verbatimBaseLabel ∧ Verbatim.ofLabel? label = none)
    (types : ∀ label ∈ (ofDeclarations declarations).types, Verbatim.ofLabel? label = none) :
    (ofDeclarations declarations).Plain where
  toTabular := tabular_ofDeclarations declarations
  nonempty := fun enumerated => (builtins _ enumerated).1 rfl
  notBase := fun enumerated => (builtins _ enumerated).2.1 rfl
  notVerbatim := by
    intro label listed
    rcases List.mem_append.mp listed with declared | enumerated
    · exact types label declared
    · exact (builtins label enumerated).2.2
  negation := by
    intro definition found
    rcases Option.bind_eq_some_iff.mp found with ⟨label, -, defined⟩
    exact (Tables.name_of_builtin? defined).symm ▸ defined
  operation := by
    intro operation label definition found
    rcases Option.bind_eq_some_iff.mp found with ⟨builtin, -, defined⟩
    exact (Tables.name_of_builtin? defined).symm ▸ defined

end Dialect

namespace Registry

/-! ## The range of built-ins -/

/-- The name carries the label of the verbatim base, or the label of a built-in that is on record
for it. -/
private def OnRecord (registry : Registry) (name : Name) : Prop :=
  ∃ label, registry.arena.label? name = some label ∧
    (label = verbatimBaseLabel ∨ label ∈ registry.dialect.builtinLabels ∧
      ∃ record, registry.builtin? name = some record ∧
        registry.dialect.builtin? label = some record.definition)

private structure Recording (dialect : Dialect) (registry : Registry) : Prop
    extends Unclosed dialect registry where
  onRecord : ∀ name, registry.boundaries.beginBuiltins ≤ name → registry.contains name = true →
    registry.OnRecord name

namespace Recording

variable {dialect : Dialect} {registry later : Registry} {label : Label} {name : Name}
  (recording : Recording dialect registry)

include recording

private theorem defined {builtins : List NamedBuiltin}
    (growth : Growth registry (registry.defined label))
    (others : ∀ name, registry.contains name = true →
      Keyed.find? NamedBuiltin.name name builtins = registry.builtin? name)
    (new : { registry.defined label with builtins }.OnRecord registry.arena.next) :
    Recording dialect { registry.defined label with builtins } where
  subject := recording.subject
  consistent := { growth.consistent recording.consistent with }
  unclosed := recording.unclosed
  onRecord := by
    intro name least inside
    rcases (Arena.contains_append_iff (registry.arena.withLabel label) _).mp inside with
      before | rfl
    · rcases recording.onRecord name least before with ⟨text, carried, entry⟩
      refine ⟨text, label?_defined_of_carried recording.consistent.arena carried, ?_⟩
      rcases entry with base | ⟨enumerated, record, found, defined⟩
      · exact .inl base
      · exact .inr ⟨enumerated, record, (others name before).trans found, defined⟩
    · exact new

private theorem internBase (ordinary : dialect.Ordinary verbatimBaseLabel)
    (done : intern verbatimBaseLabel registry = .ok name later) : Recording dialect later := by
  rw [← recording.subject] at ordinary
  rcases intern_eq_ok ordinary done with ⟨-, rfl⟩ | ⟨absent, rfl, rfl⟩
  · exact recording
  · exact recording.defined (.defined verbatimBaseLabel ordinary absent) (fun _ _ => rfl)
      ⟨verbatimBaseLabel, label?_defined_next recording.consistent.arena, .inl rfl⟩

private theorem recorded {definition : Builtin} (enumerated : label ∈ dialect.builtinLabels)
    (found : dialect.builtin? label = some definition) (ordinary : dialect.Ordinary label)
    (done : intern label registry = .ok name later) :
    Recording dialect (later.recorded name definition) := by
  rw [← recording.subject] at enumerated found ordinary
  -- The label of a built-in is not found meanwhile, so its record goes to a new name.
  have absent : registry.present? label = none := by
    rw [present?, found, Option.isSome_some, if_pos rfl]
    exact recording.findBuiltin?_eq_none label
  rcases intern_eq_ok_of_absent ordinary absent done with ⟨rfl, rfl⟩
  refine recording.defined (.defined label ordinary absent) (fun name before => ?_)
    ⟨label, label?_defined_next recording.consistent.arena, .inr ⟨enumerated,
      (registry.defined label).nameBuiltin registry.arena.next definition, ?_, found⟩⟩
  · exact (builtin?_recorded _ _ _ _).trans (if_neg (Ne.symm (Arena.ne_next before)))
  · exact (builtin?_recorded _ _ _ _).trans (if_pos rfl)

end Recording

private theorem TakesBuiltins.recording {dialect : Dialect} {seen : List Label}
    {registry : Registry} (takes : TakesBuiltins dialect seen registry) (plain : dialect.Plain) :
    Recording dialect registry := by
  induction takes with
  | start types done =>
      have begun : Recording dialect (separated _) :=
        { types.unclosed.separated with
          onRecord := fun _ least inside => absurd (Arena.lt_size inside) (Nat.not_lt.mpr least) }
      have base := begun.internBase (plain.ordinary_of_unread (by decide +kernel)) done
      exact { begun.toUnclosed.withVerbatim done with onRecord := base.onRecord }
  | unnamed _ _ induction => exact induction
  | undefined place _ _ _ missing _ =>
      rcases plain.defined _ (Lists.mem_of_place place) with ⟨definition, found⟩
      exact absurd (missing.symm.trans found) (by simp)
  | defined place _ _ done found induction =>
      have enumerated := Lists.mem_of_place place
      exact induction.recorded enumerated found
        (plain.ordinary (List.mem_append_right _ enumerated)) done

private def RangeRecorded (registry : Registry) : Prop :=
  ∀ name, registry.boundaries.containsBuiltin name = true → registry.OnRecord name

namespace RangeRecorded

variable {registry later : Registry} (recorded : registry.RangeRecorded)

include recorded

private theorem continued (continuation : registry.Continuation later) (sound : registry.Sound) :
    later.RangeRecorded := by
  intro name inRange
  rw [continuation.boundaries] at inRange
  have less : name < registry.boundaries.endBuiltins := (of_decide_eq_true inRange).2
  rcases recorded name inRange with ⟨label, carried, entry⟩
  refine ⟨label, (continuation.toEvolves.arenaLabel?_eq sound.arena
    (continuation.fixed name less)).trans carried, ?_⟩
  rw [continuation.dialect, continuation.builtin? name (sound.contains_of_lt less)]
  exact entry

private theorem record_of_findBuiltin? (plain : registry.dialect.Plain) {label : Label}
    {name : Name} {definition : Builtin}
    (defined : registry.dialect.builtin? label = some definition)
    (found : registry.findBuiltin? label = some name) :
    label ∈ registry.dialect.builtinLabels ∧ ∃ record, registry.builtin? name = some record ∧
      record.name = name ∧ record.definition = definition := by
  have labelled : registry.label? name = some label := by simpa using List.find?_some found
  rcases recorded name (decide_eq_true (findBuiltin?_lt found)) with ⟨text, carried, entry⟩
  have same : text = label := by
    simpa only [label?, carried, Option.some.injEq] using labelled
  subst same
  rcases entry with rfl | ⟨enumerated, record, known, own⟩
  · rcases plain.listed _ definition defined with enumerated | ⟨arity, read⟩
    · exact absurd enumerated plain.notBase
    · have unread : Verbatim.ofLabel? verbatimBaseLabel = none := by decide +kernel
      exact absurd (read.symm.trans unread) (by simp)
  · cases defined.symm.trans own
    have named : record.name = name := by simpa using List.find?_some known
    exact ⟨enumerated, record, known, named, rfl⟩

end RangeRecorded

private theorem TakesBuiltins.rangeRecorded {dialect : Dialect} {filled : Registry}
    (takes : TakesBuiltins dialect dialect.builtinLabels filled) (plain : dialect.Plain) :
    filled.closed.RangeRecorded := by
  intro name inRange
  have inside := of_decide_eq_true inRange
  exact (takes.recording plain).onRecord name inside.1 (Arena.contains_of_lt inside.2)

private theorem Reachable.rangeRecorded {dialect : Dialect} {registry : Registry}
    (reachable : Reachable dialect registry) (plain : dialect.Plain) :
    registry.RangeRecorded :=
  reachable.holds_of_closed (fun _ takes => takes.rangeRecorded plain)
    (fun _ _ _ recorded => recorded) (fun _ _ recorded => recorded)
    fun _ _ sound continuation recorded => recorded.continued continuation sound

/-! ## The operation table -/

private theorem operationTable_congr {registry later : Registry}
    (dialect : later.dialect = registry.dialect) (types : later.types = registry.types)
    (found : ∀ label, later.findBuiltin? label = registry.findBuiltin? label) :
    later.operationTable = registry.operationTable := by
  simp only [operationTable, rowLabels, definitionName?, dialect, types, found]

private theorem Continuation.operationTable_eq {registry later : Registry}
    (continuation : registry.Continuation later) (sound : registry.Sound) :
    later.operationTable = registry.operationTable :=
  operationTable_congr continuation.dialect continuation.types
    (continuation.findBuiltin?_eq sound)

private theorem Identifies.operations_eq {first registry : Registry} (sound : first.Sound)
    (identifies : Identifies first registry) (filled : first.operations = first.operationTable) :
    registry.operations = registry.operationTable := by
  induction identifies with
  | start => exact filled
  | interned earlier _ done induction =>
      have growth := growth_of_intern done
      have earlierSound := (earlier.sound sound).2
      have continuation := (growth.extension earlierSound).continuation earlierSound
      exact growth.evolves.operations.trans
        (induction.trans (continuation.operationTable_eq earlierSound).symm)
  | @predefined registry _ predefined same induction =>
      have table := @operationTable_congr registry { registry with predefined } rfl rfl
        (findBuiltin?_predefined same)
      exact induction.trans table.symm

private theorem Reachable.operations_eq {dialect : Dialect} {registry : Registry}
    (reachable : Reachable dialect registry) : registry.operations = registry.operationTable := by
  refine reachable.continues (fun registry built => ?_) fun _ _ sound continuation same =>
    continuation.operations.trans (same.trans (continuation.operationTable_eq sound).symm)
  rcases phases_of_ofDialect built with ⟨filled, identified, takes, first, second⟩
  have sound := (first.sound takes.sound_closed).2
  have entered : { identified with operations := identified.operationTable }.Sound := { sound with }
  exact second.operations_eq entered rfl

private theorem get?_operationTable {registry : Registry} {position : Nat} {label : Label}
    (row : registry.rowLabels[position]? = some label) (operation : TypeOperation) :
    registry.operationTable.get? operation position =
      registry.definitionName? (registry.dialect.operation? operation label) := by
  simp [OperationTable.get?, operationTable, row]

/-! ## Definitions and records -/

/-- A record is found for the definition that the dialect gives if it is the one of an enumerated
built-in, and the record has the name that the built-in is registered under. -/
structure Mirrors (registry : Registry) (given : Option Builtin) (found : Option NamedBuiltin) :
    Prop where
  definition : ∀ definition, (∃ record, found = some record ∧ record.definition = definition) ↔
    given = some definition ∧ registry.dialect.Enumerates definition
  name : ∀ record, found = some record →
    registry.findBuiltin? record.definition.name = some record.name

private theorem Mirrors.none (registry : Registry) : registry.Mirrors .none .none where
  definition := by simp
  name := by simp

private theorem Mirrors.exists_record {registry : Registry} {given : Option Builtin}
    {found : Option NamedBuiltin} {definition : Builtin} (mirrors : registry.Mirrors given found)
    (same : given = some definition) (enumerated : registry.dialect.Enumerates definition) :
    ∃ record, found = some record ∧ record.definition = definition ∧
      registry.findBuiltin? definition.name = some record.name := by
  rcases (mirrors.definition definition).mpr ⟨same, enumerated⟩ with ⟨record, isRecord, rfl⟩
  exact ⟨record, isRecord, rfl, mirrors.name record isRecord⟩

/-- What a special operation of a type is answered with mirrors what the dialect gives for a
label. -/
def Performs (registry : Registry) (operation : TypeOperation) (type : Name) (label : Label) :
    Prop :=
  ∃ found, registry.operation operation type = .ok found ∧
    registry.operationName operation type = .ok (found.map (·.name)) ∧
    registry.Mirrors (registry.dialect.operation? operation label) found

private theorem Listed.exists_findBuiltin?_of_enumerates {registry : Registry}
    (listed : registry.Listed) (plain : registry.dialect.Plain) {definition : Builtin}
    (enumerates : registry.dialect.Enumerates definition) :
    ∃ name, registry.findBuiltin? definition.name = some name := by
  rcases enumerates with ⟨label, enumerated, defined⟩
  rw [plain.named label definition defined]
  have ordinary := plain.ordinary (List.mem_append_right _ enumerated)
  exact listed.found label enumerated (fun empty => plain.nonempty (empty ▸ enumerated)) ordinary

private theorem RangeRecorded.mirrors {registry : Registry} (recorded : registry.RangeRecorded)
    (listed : registry.Listed) (plain : registry.dialect.Plain) {given : Option Builtin}
    (known : ∀ definition, given = some definition →
      registry.dialect.builtin? definition.name = some definition) :
    ∃ found, (registry.definitionName? given).bind registry.builtin? = found ∧
      registry.definitionName? given = found.map (·.name) ∧ registry.Mirrors given found := by
  cases given with
  | none => exact ⟨none, rfl, rfl, .none registry⟩
  | some definition =>
      have defined := known definition rfl
      have name : registry.definitionName? (some definition) =
          registry.findBuiltin? definition.name := rfl
      rw [name]
      cases found : registry.findBuiltin? definition.name with
      | none =>
          refine ⟨none, rfl, rfl, fun other => ?_, by simp⟩
          constructor
          · intro given
            rcases given with ⟨record, absent, -⟩
            exact absurd absent (by simp)
          · intro given
            rcases given with ⟨same, enumerates⟩
            cases same
            rcases listed.exists_findBuiltin?_of_enumerates plain enumerates with ⟨name, present⟩
            exact absurd (found.symm.trans present) (by simp)
      | some name =>
          rcases recorded.record_of_findBuiltin? plain defined found with
            ⟨enumerated, record, onRecord, rfl, rfl⟩
          refine ⟨some record, onRecord, rfl, fun other => ?_, fun other same => ?_⟩
          · constructor
            · intro given
              rcases given with ⟨same, isRecord, rfl⟩
              cases isRecord
              exact ⟨rfl, _, enumerated, defined⟩
            · intro given
              exact ⟨record, rfl, Option.some.inj given.1⟩
          · cases same
            exact found

private theorem operation_performs {dialect : Dialect} {registry : Registry}
    (reachable : Reachable dialect registry) (plain : dialect.Plain) {type : Name}
    {position : Nat} {label : Label} (found : registry.typeIndex type = .ok position)
    (row : registry.rowLabels[position]? = some label) (operation : TypeOperation) :
    registry.Performs operation type label := by
  have recorded := reachable.rangeRecorded plain
  have listed := reachable.listed plain.toTabular
  have answers := operation_of_typeIndex found operation
  rw [reachable.operations_eq, get?_operationTable row] at answers
  rcases reachable.sound with ⟨rfl, -⟩
  rcases recorded.mirrors listed plain (plain.operation operation label) with
    ⟨record, isRecord, name, mirrors⟩
  rw [isRecord, name] at answers
  exact ⟨record, answers.2, answers.1, mirrors⟩

private theorem row_of_type {dialect : Dialect} {registry : Registry}
    (reachable : Reachable dialect registry) (plain : dialect.Plain) {label : Label}
    (declared : label ∈ dialect.types) :
    ∃ type position, registry.findType? label = some type ∧
      registry.typeIndex type = .ok position ∧ registry.rowLabels[position]? = some label := by
  have table := reachable.typeTable
  rcases reachable.sound with ⟨rfl, -⟩
  have carried {type : Name} {text : Label} (member : (type, text) ∈ registry.types) :
      registry.arena.label? type = some text := by
    have listed : text ∈ registry.dialect.types :=
      table.declared ▸ List.mem_map_of_mem member
    exact table.labelled type text member (plain.ordinary (List.mem_append_left _ listed))
  rcases exists_findType?_of_mem (table.declared ▸ declared) with ⟨type, isType, member⟩
  -- The position found may be one of a repetition, which has the same label and so the same row.
  rcases table.typeIndex_of_contained ((table.listed type).mp (List.mem_map_of_mem member)) with
    ⟨position, text, found, entry⟩
  have same : text = label := Option.some.inj
    ((carried (List.mem_of_getElem? entry)).symm.trans (carried member))
  refine ⟨type, position, isType, found, ?_⟩
  have some : registry.types ≠ [] := List.ne_nil_of_mem member
  rw [rowLabels, if_neg (by simpa using some), List.getElem?_map, entry, same]
  rfl

/-! ## The guarantee -/

/-- For every declared type, a special operation is answered with the record of the definition
that the dialect gives for the label of the type. A dialect without types gives its operations
for the empty label, and then every name is answered in this way. -/
theorem operations_mirror_dialect {declarations : List Dialect.Declaration} {registry : Registry}
    (builtins : ∀ label ∈ (Dialect.ofDeclarations declarations).builtinLabels,
      label ≠ "" ∧ label ≠ verbatimBaseLabel ∧ Verbatim.ofLabel? label = none)
    (types : ∀ label ∈ (Dialect.ofDeclarations declarations).types,
      Verbatim.ofLabel? label = none)
    (reachable : Reachable (.ofDeclarations declarations) registry) :
    (∀ label ∈ (Dialect.ofDeclarations declarations).types,
      ∃ type, registry.findType? label = some type ∧
        ∀ operation, registry.Performs operation type label) ∧
    ((Dialect.ofDeclarations declarations).types = [] →
      ∀ name operation, registry.Performs operation name "") ∧
    registry.Mirrors (Dialect.ofDeclarations declarations).negation? registry.negation? := by
  have plain := Dialect.plain_ofDeclarations builtins types
  refine ⟨fun label declared => ?_, fun untyped name operation => ?_, ?_⟩
  · rcases row_of_type reachable plain declared with ⟨type, position, isType, found, row⟩
    exact ⟨type, isType, operation_performs reachable plain found row⟩
  · have none : registry.types = [] := by
      rw [← List.map_eq_nil_iff, reachable.typeTable.declared, reachable.sound.1, untyped]
    have first : registry.typeIndex name = .ok 0 := by
      rw [typeIndex, none]
      rfl
    have row : registry.rowLabels[0]? = some "" := by
      rw [rowLabels, none]
      rfl
    exact operation_performs reachable plain first row operation
  · have negation : registry.negation? =
        (registry.definitionName? registry.dialect.negation?).bind registry.builtin? := by
      rw [negation?, reachable.operations_eq]
      rfl
    have recorded := reachable.rangeRecorded plain
    have listed := reachable.listed plain.toTabular
    rw [← reachable.sound.1] at plain ⊢
    rcases recorded.mirrors listed plain plain.negation with ⟨found, isFound, -, mirrors⟩
    rw [negation, isFound]
    exact mirrors

/-- A type is declared twice, another one has the label of a built-in, and a definition that is
given for an operation is a verbatim one. -/
def sharingDeclarations : List Dialect.Declaration :=
  [.valueType "word", .valueType "add", .valueType "word",
    .builtin (.untyped "pop" ⟨1, 0⟩), .builtin (.untyped "add" ⟨2, 1⟩),
    .operation .discard "word" "pop", .operation .hash "add" "add",
    .operation .equality "word" "verbatim_1i_1o", .negation "add", .verbatim 1]

theorem operations_mirror_dialect_of_shared_labels :
    ∃ registry, Reachable (.ofDeclarations sharingDeclarations) registry ∧
      (∃ type record, registry.findType? "word" = some type ∧
        registry.operation .discard type = .ok (some record) ∧
        record.definition = .untyped "pop" ⟨1, 0⟩ ∧
        registry.findBuiltin? "pop" = some record.name ∧
        registry.operation .equality type = .ok none) ∧
      (∃ type record, registry.findType? "add" = some type ∧
        registry.operation .hash type = .ok (some record) ∧
        registry.operationName .hash type = .ok (some record.name) ∧
        registry.findBuiltin? "add" = some record.name) ∧
      ∃ record, registry.negation? = some record ∧ record.definition = .untyped "add" ⟨2, 1⟩ := by
  have passed : reaches (.ofDeclarations sharingDeclarations)
      [.intern "x", .derive ⟨9⟩, .assignLabels [⟨9⟩, ⟨10⟩] ["x"]] (fun registry =>
        decide (registry.label? ⟨9⟩ = some "x_1")) = true := by
    decide +kernel
  rcases exists_of_reaches passed with ⟨start, built, -⟩
  have reachable := (Reachable.start built).run
    [.intern "x", .derive ⟨9⟩, .assignLabels [⟨9⟩, ⟨10⟩] ["x"]]
  have subject := reachable.sound.1
  rcases operations_mirror_dialect (by decide +kernel) (by decide +kernel) reachable with
    ⟨typed, -, negation⟩
  have pop : (Dialect.ofDeclarations sharingDeclarations).Enumerates (.untyped "pop" ⟨1, 0⟩) :=
    ⟨"pop", by decide +kernel, by decide +kernel⟩
  have add : (Dialect.ofDeclarations sharingDeclarations).Enumerates (.untyped "add" ⟨2, 1⟩) :=
    ⟨"add", by decide +kernel, by decide +kernel⟩
  refine ⟨_, reachable, ?_, ?_, ?_⟩
  · rcases typed "word" (by decide +kernel) with ⟨type, isType, performs⟩
    rcases performs .discard with ⟨_, discards, -, discarding⟩
    rw [subject] at discarding
    rcases discarding.exists_record (by decide +kernel) (subject ▸ pop) with
      ⟨record, rfl, isPop, named⟩
    rcases performs .equality with ⟨found, equates, -, equating⟩
    rw [subject] at equating
    cases found with
    | none => exact ⟨type, record, isType, discards, isPop, named, equates⟩
    | some other =>
        rcases (equating.definition other.definition).mp ⟨other, rfl, rfl⟩ with
          ⟨given, enumerated⟩
        have verbatim : (Dialect.ofDeclarations sharingDeclarations).operation? .equality "word" =
            some (.verbatim ⟨1, 1⟩) := by
          decide +kernel
        have unlisted : ¬∃ label ∈ (Dialect.ofDeclarations sharingDeclarations).builtinLabels,
            (Dialect.ofDeclarations sharingDeclarations).builtin? label =
              some (.verbatim ⟨1, 1⟩) := by
          decide +kernel
        rw [Option.some.inj (given.symm.trans verbatim), subject] at enumerated
        exact absurd enumerated unlisted
  · rcases typed "add" (by decide +kernel) with ⟨type, isType, performs⟩
    rcases performs .hash with ⟨_, hashes, named, hashing⟩
    rw [subject] at hashing
    rcases hashing.exists_record (by decide +kernel) (subject ▸ add) with
      ⟨record, rfl, -, registered⟩
    exact ⟨type, record, isType, hashes, named, registered⟩
  · exact (negation.definition _).mpr ⟨by decide +kernel, subject ▸ add⟩

end Registry

end NameRegistry
