import NameRegistry.Proofs.Registration
import NameRegistry.Proofs.VerbatimFamily

/-! # Records of built-ins

A record gives a built-in of the dialect in terms of names. The built-ins of the range get
theirs while a registry is set up, and a verbatim built-in gets its own when it is made. In a
well-formed dialect no other name ever has a record, and no record is ever changed.
-/

namespace NameRegistry

namespace Dialect.Unambiguous

variable {dialect : Dialect} (unambiguous : dialect.Unambiguous)

include unambiguous

private theorem layout_builtin (index : Nat) :
    dialect.layout[dialect.typeLabels.length + 1 + index]? = dialect.builtinLabels[index]? := by
  have layout : dialect.layout = dialect.typeLabels ++ verbatimBaseLabel :: dialect.builtinLabels :=
    unambiguous.layout_eq
  rw [layout, Nat.add_assoc, List.getElem?_append_right (Nat.le_add_right _ _),
    Nat.add_sub_cancel_left, Nat.add_comm 1 index, List.getElem?_cons_succ]

end Dialect.Unambiguous

namespace Registry

/-! ## The range of built-ins -/

private def PlacedRecords (registry : Registry) : Prop :=
  ∀ index label, registry.dialect.layout[index]? = some label →
    registry.builtin? ⟨index⟩ =
      (registry.dialect.builtin? label).map (registry.nameBuiltin ⟨index⟩)

private theorem TakesBuiltins.placedRecords {dialect : Dialect} {filled : Registry}
    (takes : TakesBuiltins dialect dialect.builtinLabels filled)
    (unambiguous : dialect.Unambiguous) : filled.closed.PlacedRecords := by
  have laying := takes.laying unambiguous
  have subject := laying.subject
  subst subject
  intro index label listed
  have carried : (filled.dialect.labelsAfterBuiltins filled.dialect.builtinLabels)[index]? =
      some label := listed
  have records := laying.records index
  rw [carried] at records
  exact records

namespace PlacedRecords

variable {registry later : Registry}

private theorem continued (placed : registry.PlacedRecords) (laidOut : registry.LaidOut)
    (continuation : registry.Continuation later) (sound : registry.Sound) :
    later.PlacedRecords := by
  intro index label listed
  rw [continuation.dialect] at listed ⊢
  have inside : registry.contains ⟨index⟩ = true :=
    sound.contains_of_lt (laidOut.lt_endBuiltins_iff.mpr (List.getElem?_eq_some_iff.mp listed).1)
  have named : later.nameBuiltin ⟨index⟩ = registry.nameBuiltin ⟨index⟩ := by
    funext definition
    exact continuation.nameBuiltin_eq ⟨index⟩ definition
  rw [continuation.builtin? ⟨index⟩ inside, named]
  exact placed index label listed

end PlacedRecords

private theorem Reachable.placedRecords {dialect : Dialect} {registry : Registry}
    (reachable : Reachable dialect registry) (unambiguous : dialect.Unambiguous) :
    registry.PlacedRecords := by
  let Placed (registry : Registry) : Prop := registry.LaidOut ∧ registry.PlacedRecords
  have placed : Placed registry :=
    reachable.holds_of_closed
      (fun _ takes => ⟨takes.laidOut unambiguous, takes.placedRecords unambiguous⟩)
      (fun _ _ same placed =>
        ⟨{ placed.1 with verbatim := same.trans placed.1.verbatim }, placed.2⟩)
      (fun _ _ placed => ⟨{ placed.1 with }, placed.2⟩)
      fun _ _ sound continuation placed =>
        ⟨placed.1.continued continuation sound, placed.2.continued placed.1 continuation sound⟩
  exact placed.2

/-! ## The verbatim family -/

private def FamilyRecords (registry : Registry) : Prop :=
  ∀ arity name, (arity, name) ∈ registry.instances →
    ∃ definition, registry.dialect.verbatim? arity = some definition ∧
      registry.builtin? name = some (registry.nameBuiltin name definition)

namespace FamilyRecords

variable {registry later : Registry} (records : registry.FamilyRecords) (sound : registry.Sound)

include records sound

private theorem evolves (evolves : registry.Evolves later) {arity : Arity} {name : Name}
    (made : (arity, name) ∈ registry.instances) :
    ∃ definition, later.dialect.verbatim? arity = some definition ∧
      later.builtin? name = some (later.nameBuiltin name definition) := by
  rcases records arity name made with ⟨definition, found, record⟩
  refine ⟨definition, evolves.dialect ▸ found, ?_⟩
  rw [evolves.builtin? name (sound.instances arity name made), evolves.nameBuiltin_eq]
  exact record

private theorem growth (wellFormed : registry.dialect.WellFormed) (growth : Growth registry later) :
    later.FamilyRecords := by
  intro arity name made
  have kept (before : (arity, name) ∈ registry.instances) :=
    records.evolves sound growth.evolves before
  cases growth with
  | same | interned | defined | derived => exact kept made
  | minted label definition base found verbatim new linked =>
      rcases List.mem_append.mp made with before | now
      · exact kept before
      · cases List.mem_singleton.mp now
        rw [← wellFormed.named label definition found] at found
        refine ⟨definition, wellFormed.verbatim?_of_isVerbatim found verbatim, ?_⟩
        rw [builtin?_minted, if_pos rfl]
        rfl

end FamilyRecords

private theorem Reachable.familyRecords {dialect : Dialect} {registry : Registry}
    (reachable : Reachable dialect registry) (wellFormed : dialect.WellFormed) :
    registry.FamilyRecords := by
  apply @Reachable.keeps _ _ FamilyRecords reachable
  · intro registry built arity name made
    rw [(unminted_ofDialect wellFormed.toUnambiguous built).instances] at made
    exact absurd made List.not_mem_nil
  · rintro registry later rfl sound growth records
    exact records.growth sound wellFormed growth
  · intro registry later used illegal changes _ sound _ relabels records arity name made
    rw [relabels.frame] at made
    exact records.evolves sound relabels.evolves made

/-! ## Which names have a record -/

/-- The name is the one that a built-in of the enumeration is registered under. -/
def Enumerated (registry : Registry) (name : Name) (label : Label) : Prop :=
  ∃ index, registry.dialect.builtinLabels[index]? = some label ∧
    name = ⟨registry.boundaries.beginBuiltins.index + 1 + index⟩

/-- The label that a built-in is registered under, or that states the arity it is made for. -/
inductive RegisteredAs (registry : Registry) (name : Name) : Label → Prop where
  | enumerated (label : Label) (listed : registry.Enumerated name label) :
      RegisteredAs registry name label
  | minted (arity : Arity) (made : (arity, name) ∈ registry.instances) :
      RegisteredAs registry name (Verbatim.label arity)

/-- The name stands for the type label: it is the name of the type, or the empty name if there
is no such type. -/
def NamesType (registry : Registry) (type : Name) (label : Label) : Prop :=
  registry.findType? label = some type ∧ label ∈ registry.dialect.types ∨
    type = .empty ∧ label ∉ registry.dialect.types

private theorem LaidOut.enumerated_iff {registry : Registry} (laidOut : registry.LaidOut)
    (unambiguous : registry.dialect.Unambiguous) {name : Name} {label : Label} :
    registry.Enumerated name label ↔
      label ∈ registry.dialect.builtinLabels ∧
        registry.dialect.layout[name.index]? = some label := by
  unfold Enumerated
  rw [laidOut.boundaries]
  constructor
  · rintro ⟨index, listed, rfl⟩
    exact ⟨List.mem_of_getElem? listed, (unambiguous.layout_builtin index).trans listed⟩
  · rintro ⟨enumerated, placed⟩
    rcases List.getElem?_of_mem enumerated with ⟨index, listed⟩
    have again := (unambiguous.layout_builtin index).trans listed
    exact ⟨index, listed, congrArg Name.mk (unambiguous.index_unique placed again)⟩

private theorem Registered.namesType {registry : Registry} (registered : registry.Registered)
    (label : Label) : registry.NamesType (registry.typeName label) label := by
  unfold typeName
  cases found : registry.findType? label with
  | some type =>
      have member := mem_types_of_findType? found
      exact .inl ⟨found, registered.declared ▸ List.mem_map_of_mem member⟩
  | none =>
      refine .inr ⟨rfl, fun declared => ?_⟩
      rw [← registered.declared] at declared
      rcases exists_findType?_of_mem declared with ⟨type, present, -⟩
      exact absurd (found.symm.trans present) (by simp)

private structure Documented (registry : Registry) : Prop extends Regular registry where
  registered : registry.Registered
  placed : registry.PlacedRecords
  family : registry.FamilyRecords

namespace Documented

variable {registry : Registry} (documented : registry.Documented) {name : Name}
  {record : NamedBuiltin}

include documented

private theorem contains_of_record (found : registry.builtin? name = some record) :
    registry.contains name = true := by
  rcases documented.registered.recorded name record found with inRange | verbatim
  · exact documented.sound.contains_of_lt inRange
  · exact documented.sound.instances _ name
      (documented.separated.recorded name record found verbatim)

private theorem builtin?_of_enumerated {label : Label}
    (enumerated : registry.Enumerated name label) :
    registry.builtin? name =
      (registry.dialect.builtin? label).map (registry.nameBuiltin name) :=
  documented.placed name.index label
    ((documented.laidOut.enumerated_iff documented.unambiguous).mp enumerated).2

private theorem registeredAs_of_record (found : registry.builtin? name = some record) :
    (∃ label definition, registry.Enumerated name label ∧
      registry.dialect.builtin? label = some definition) ∨
    ∃ arity, (arity, name) ∈ registry.instances := by
  rcases documented.registered.recorded name record found with inRange | verbatim
  · have inside := documented.laidOut.lt_endBuiltins_iff.mp inRange
    have listed := List.getElem?_eq_getElem inside
    have recorded := documented.placed name.index _ listed
    rw [found] at recorded
    rcases Option.map_eq_some_iff.mp recorded.symm with ⟨definition, defined, -⟩
    have enumerated := documented.unambiguous.enumerated_of_layout listed defined
    exact .inl ⟨_, definition, (documented.laidOut.enumerated_iff documented.unambiguous).mpr
      ⟨enumerated, listed⟩, defined⟩
  · exact .inr ⟨_, documented.separated.recorded name record found verbatim⟩

private theorem exists_record_iff :
    (∃ record, registry.builtin? name = some record) ↔
      (∃ label definition, registry.Enumerated name label ∧
        registry.dialect.builtin? label = some definition) ∨
      ∃ arity, (arity, name) ∈ registry.instances := by
  constructor
  · rintro ⟨record, found⟩
    exact documented.registeredAs_of_record found
  · rintro (⟨label, definition, enumerated, defined⟩ | ⟨arity, made⟩)
    · rw [documented.builtin?_of_enumerated enumerated, defined]
      exact ⟨_, rfl⟩
    · rcases documented.family arity name made with ⟨definition, -, found⟩
      exact ⟨_, found⟩

private theorem record_of_registeredAs {label : Label}
    (registeredAs : registry.RegisteredAs name label)
    (found : registry.builtin? name = some record) :
    ∃ definition, registry.dialect.builtin? label = some definition ∧
      record = registry.nameBuiltin name definition := by
  cases registeredAs with
  | enumerated _ listed =>
      rw [documented.builtin?_of_enumerated listed] at found
      rcases Option.map_eq_some_iff.mp found with ⟨definition, defined, rfl⟩
      exact ⟨definition, defined, rfl⟩
  | minted arity made =>
      rcases documented.family arity name made with ⟨definition, defined, known⟩
      cases known.symm.trans found
      exact ⟨definition, (Option.filter_eq_some_iff.mp defined).1, rfl⟩

private theorem namesTypes (labels : List Label) :
    List.Forall₂ registry.NamesType (labels.map registry.typeName) labels := by
  rw [List.forall₂_map_left_iff, List.forall₂_same]
  exact fun label _ => documented.registered.namesType label

private theorem builtin?_of_derive {origin fresh : Name} {later : Registry}
    (done : derive origin registry = .ok fresh later) (commands : List Command) :
    (run commands later).builtin? fresh = none := by
  have growth := growth_derive origin registry
  rw [after_of_ok done] at growth
  have continuation := Continuation.run commands (growth.sound documented.sound)
  rcases derive_cases origin registry with ⟨base, -, derived⟩ | ⟨error, -, failed⟩
  · cases derived.symm.trans done
    rw [continuation.builtin? _ (Arena.contains_next registry.arena _)]
    -- The fresh name is not there yet, whereas every name with a record is.
    cases found : registry.builtin? registry.arena.next with
    | none => exact found
    | some record => exact absurd rfl (Arena.ne_next (documented.contains_of_record found))
  · exact absurd (failed.symm.trans done) (by simp)

private theorem builtin?_run (found : registry.builtin? name = some record)
    (commands : List Command) :
    (run commands registry).builtin? name = some record :=
  ((Continuation.run commands documented.sound).builtin? name
    (documented.contains_of_record found)).trans found

end Documented

private theorem Reachable.documented {dialect : Dialect} {registry : Registry}
    (reachable : Reachable dialect registry) (wellFormed : dialect.WellFormed) :
    registry.Documented where
  toRegular := reachable.regular wellFormed.toUnambiguous
  registered := reachable.registered wellFormed.toUnambiguous
  placed := reachable.placedRecords wellFormed.toUnambiguous
  family := reachable.familyRecords wellFormed

/-! ## The guarantee -/

/-- The names with a record are the built-ins of the enumeration that the dialect defines and the
verbatim built-ins that have been made. A record has the name that it is found under and the
definition that the dialect has for the label of the name, with each type label given by the
type's name. A derived name never has a record, and a record stays as it is. -/
theorem builtin_records_faithful {dialect : Dialect} {registry : Registry}
    (wellFormed : dialect.WellFormed) (reachable : Reachable dialect registry) :
    (∀ name, (∃ record, registry.builtin? name = some record) ↔
      (∃ label definition, registry.Enumerated name label ∧
        dialect.builtin? label = some definition) ∨
      ∃ arity, (arity, name) ∈ registry.instances) ∧
    (∀ name record, registry.builtin? name = some record →
      record.name = name ∧
      (∀ label, registry.RegisteredAs name label →
        dialect.builtin? label = some record.definition) ∧
      List.Forall₂ registry.NamesType record.parameters record.definition.parameters ∧
      List.Forall₂ registry.NamesType record.returns record.definition.returns) ∧
    (∀ origin fresh later, derive origin registry = .ok fresh later →
      ∀ commands, (run commands later).builtin? fresh = none) ∧
    ∀ name record, registry.builtin? name = some record →
      ∀ commands, (run commands registry).builtin? name = some record := by
  have documented := reachable.documented wellFormed
  rcases reachable.sound with ⟨rfl, -⟩
  refine ⟨fun name => documented.exists_record_iff, fun name record found => ?_,
    fun _ _ _ => documented.builtin?_of_derive, fun _ _ => documented.builtin?_run⟩
  have registered : ∃ label, registry.RegisteredAs name label := by
    rcases documented.registeredAs_of_record found with
      ⟨label, -, enumerated, -⟩ | ⟨arity, made⟩
    · exact ⟨label, .enumerated label enumerated⟩
    · exact ⟨_, .minted arity made⟩
  rcases registered with ⟨label, registeredAs⟩
  rcases documented.record_of_registeredAs registeredAs found with ⟨definition, -, rfl⟩
  refine ⟨rfl, fun other otherAs => ?_, documented.namesTypes definition.parameters,
    documented.namesTypes definition.returns⟩
  rcases documented.record_of_registeredAs otherAs found with ⟨again, defined, same⟩
  rw [defined]
  exact congrArg (some ∘ NamedBuiltin.definition) same.symm

/-- A built-in with a parameter of no type, a verbatim built-in that loses its label, and a
variant of a built-in. -/
theorem builtin_records_faithful_beside_variant :
    ∃ registry fresh later, Reachable .typed registry ∧
      derive ⟨4⟩ registry = .ok fresh later ∧
      (∃ record, registry.builtin? ⟨16⟩ = some record ∧ record.name = ⟨16⟩ ∧
        Dialect.typed.builtin? "datasize" = some record.definition ∧
        List.Forall₂ registry.NamesType record.parameters record.definition.parameters) ∧
      (∃ record,
        (run [.assignLabels [⟨21⟩] ["verbatim_1i_1o"]] registry).builtin? ⟨21⟩ = some record ∧
        Dialect.typed.builtin? (Verbatim.label ⟨1, 1⟩) = some record.definition) ∧
      (run [.assignLabels [⟨22⟩] []] later).builtin? fresh = none := by
  have passed : reaches .typed [.verbatim ⟨1, 1⟩] (fun registry =>
      decide ((⟨1, 1⟩, ⟨21⟩) ∈ registry.instances ∧
        registry.boundaries.beginBuiltins = ⟨3⟩) && succeeds (derive ⟨4⟩) registry) = true := by
    decide +kernel
  rcases exists_of_reaches passed with ⟨start, built, tested⟩
  rcases Bool.and_eq_true_iff.mp tested with ⟨facts, derived⟩
  rcases of_decide_eq_true facts with ⟨made, begun⟩
  rcases exists_of_succeeds derived with ⟨fresh, later, done⟩
  have reachable := (Reachable.start built).run [.verbatim ⟨1, 1⟩]
  have defined : ∃ definition, Dialect.typed.builtin? "datasize" = some definition :=
    Option.isSome_iff_exists.mp (by decide +kernel)
  have enumerated : (run [.verbatim ⟨1, 1⟩] start).Enumerated ⟨16⟩ "datasize" := by
    refine ⟨12, ?_, by rw [begun]⟩
    rw [reachable.sound.1]
    decide +kernel
  rcases builtin_records_faithful Dialect.wellFormed_typed reachable with
    ⟨existence, faithful, underived, kept⟩
  rcases defined with ⟨definition, found⟩
  rcases (existence ⟨16⟩).mpr (.inl ⟨_, definition, enumerated, found⟩) with ⟨record, known⟩
  rcases (existence ⟨21⟩).mpr (.inr ⟨_, made⟩) with ⟨minted, mintedKnown⟩
  rcases faithful ⟨16⟩ record known with ⟨named, definitionOf, parameters, -⟩
  rcases faithful ⟨21⟩ minted mintedKnown with ⟨-, mintedDefinition, -⟩
  exact ⟨_, fresh, later, reachable, done,
    ⟨record, known, named, definitionOf _ (.enumerated _ enumerated), parameters⟩,
    ⟨minted, kept ⟨21⟩ minted mintedKnown _, mintedDefinition _ (.minted _ made)⟩,
    underived ⟨4⟩ fresh later done _⟩

end Registry

end NameRegistry
