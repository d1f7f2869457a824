import NameRegistry.Proofs.Room
import NameRegistry.Proofs.TypeTable

/-! # Registered labels

In an unambiguous dialect every type and every built-in has one name, for good: the name at
the place of its label in the layout. A search among the types or the built-ins, the lookup
of labels and interning all answer this name, whatever has been appended and whatever labels
have been assigned.
-/

namespace NameRegistry

namespace Dialect.Unambiguous

variable {dialect : Dialect} (unambiguous : dialect.Unambiguous)

include unambiguous

theorem layout_eq :
    dialect.layout = "" :: dialect.types.filter (· ≠ "") ++
      verbatimBaseLabel :: dialect.builtinLabels := by
  have nonempty : dialect.builtinLabels.filter (· ≠ "") = dialect.builtinLabels := by
    rw [List.filter_eq_self]
    intro label enumerated
    exact decide_eq_true fun empty => unambiguous.labelled (empty ▸ enumerated)
  rw [layout, nonempty]
  rfl

private theorem typeCount_eq : dialect.boundaries.typeCount = dialect.types.length := by
  have distinct := (List.nodup_append.mp unambiguous.distinct).1
  have count : dialect.boundaries.typeCount = (dialect.types.filter (· ≠ "")).length + 1 -
      (if "" ∈ dialect.types then Name.empty else ⟨1⟩).index := rfl
  rw [count]
  by_cases unnamed : "" ∈ dialect.types
  · have others : dialect.types.filter (· ≠ "") = dialect.types.erase "" := by
      rw [distinct.erase_eq_filter]
      exact List.filter_congr fun label _ => by rw [Bool.eq_iff_iff]; simp
    have positive := List.length_pos_of_mem unnamed
    have index : Name.empty.index = 0 := rfl
    rw [if_pos unnamed, others, List.length_erase_of_mem unnamed, index]
    omega
  · have all : dialect.types.filter (· ≠ "") = dialect.types := by
      rw [List.filter_eq_self]
      intro label declared
      exact decide_eq_true fun empty => unnamed (empty ▸ declared)
    rw [if_neg unnamed, all]
    rfl

theorem index_unique {label : Label} {left right : Nat}
    (atLeft : dialect.layout[left]? = some label)
    (atRight : dialect.layout[right]? = some label) : left = right :=
  (List.getElem?_inj (List.getElem?_eq_some_iff.mp atLeft).1 unambiguous.nodup_layout).mp
    (atLeft.trans atRight.symm)

end Dialect.Unambiguous

namespace Registry

/-! ## What is registered -/

/-- The types are listed under their names, and no other name carries a label of the layout. -/
structure Registered (registry : Registry) : Prop where
  declared : registry.types.map (·.2) = registry.dialect.types
  placed : ∀ name label, (name, label) ∈ registry.types →
    registry.dialect.typeLabels[name.index]? = some label
  alone : ∀ index label name, registry.dialect.layout[index]? = some label →
    registry.arena.label? name = some label → name = ⟨index⟩
  recorded : ∀ name record, registry.builtin? name = some record →
    name < registry.boundaries.endBuiltins ∨ record.definition.isVerbatim = true

private theorem TakesBuiltins.registered {dialect : Dialect} {filled : Registry}
    (takes : TakesBuiltins dialect dialect.builtinLabels filled)
    (unambiguous : dialect.Unambiguous) : filled.closed.Registered := by
  have laying := takes.laying unambiguous
  have subject := laying.subject
  subst subject
  refine ⟨laying.declared, laying.placed, fun index label name listed labelled => ?_,
    fun name record found => .inl ?_⟩
  · have carried : filled.arena.label? name = some label := labelled
    rw [laying.arena, Arena.label?_ofLabels] at carried
    exact congrArg Name.mk (unambiguous.index_unique carried listed)
  · have records : filled.builtin? name = _ := laying.records name.index
    rcases Option.map_eq_some_iff.mp (records.symm.trans found) with ⟨definition, defined, -⟩
    rcases Option.bind_eq_some_iff.mp defined with ⟨label, listed, -⟩
    exact (takes.laidOut unambiguous).lt_endBuiltins_iff.mpr
      (List.getElem?_eq_some_iff.mp listed).1

/-! ## Every change keeps it -/

private theorem Growth.registered {registry later : Registry} (growth : Growth registry later)
    (unambiguous : registry.dialect.Unambiguous) (sound : registry.Sound)
    (laidOut : registry.LaidOut) (registered : registry.Registered) : later.Registered where
  declared := by
    rw [growth.evolves.types, growth.evolves.dialect]
    exact registered.declared
  placed := by
    rw [growth.evolves.types, growth.evolves.dialect]
    exact registered.placed
  alone := by
    intro index label name listed labelled
    rw [growth.evolves.dialect] at listed
    have before (carried : registry.arena.label? name = some label) : name = ⟨index⟩ :=
      registered.alone index label name listed carried
    cases growth with
    | same => exact before labelled
    | interned text =>
        exact before ((label?_interned registry name sound.arena text).symm.trans labelled)
    | defined text ordinary absent =>
        rw [label?_defined registry name sound.arena] at labelled
        split at labelled
        · cases labelled
          rcases laidOut.exists_present? unambiguous sound.arena ordinary
            (laidOut.labels index label listed) with ⟨found, present⟩
          exact absurd (absent.symm.trans present) (by simp)
        · exact before labelled
    | derived other base => exact before ((label?_derived registry name base).symm.trans labelled)
    | minted text definition base =>
        exact before ((label?_minted registry name definition base).symm.trans labelled)
  recorded := by
    intro name record found
    rw [growth.evolves.boundaries]
    cases growth with
    | same | interned | defined | derived => exact registered.recorded name record found
    | minted text definition base _ verbatim =>
        rw [builtin?_minted] at found
        split at found
        · cases found
          exact .inr verbatim
        · exact registered.recorded name record found

private theorem LaidOut.mem_fixedLabels {registry : Registry} (laidOut : registry.LaidOut)
    {label : Label} {index : Nat} (listed : registry.dialect.layout[index]? = some label) :
    label ∈ registry.fixedLabels := by
  have inside := (List.getElem?_eq_some_iff.mp listed).1
  refine Registry.mem_fixedLabels.mpr ⟨⟨index⟩, laidOut.lt_endBuiltins_iff.mpr inside, ?_⟩
  simp only [label?, laidOut.labels index label listed]

private theorem Relabels.registered {registry later : Registry} {used : List Name}
    {illegal : List Label} {changes : List Relabelling}
    (relabels : Relabels (changes.map Relabelling.label) registry later)
    (chosen : Chosen registry (registry.takenLabels used) illegal changes)
    (sound : registry.Sound) (laidOut : registry.LaidOut) (registered : registry.Registered) :
    later.Registered where
  declared := by
    rw [relabels.evolves.types, relabels.evolves.dialect]
    exact registered.declared
  placed := by
    rw [relabels.evolves.types, relabels.evolves.dialect]
    exact registered.placed
  alone := by
    intro index label name listed labelled
    rw [relabels.evolves.dialect] at listed
    rcases relabels.states name with same | ⟨-, given, member, known⟩
    · rw [relabels.evolves.arenaLabel?_eq sound.arena same] at labelled
      exact registered.alone index label name listed labelled
    · cases known.symm.trans labelled
      rcases List.mem_map.mp member with ⟨change, present, rfl⟩
      have taken := List.mem_append_left (registry.ownedLabels used)
        (laidOut.mem_fixedLabels listed)
      exact absurd taken (chosen.not_mem present).1
  recorded := by
    have builtins : later.builtins = registry.builtins := by rw [relabels.frame]
    intro name record found
    rw [builtin?, builtins] at found
    rw [relabels.evolves.boundaries]
    exact registered.recorded name record found

private theorem registered_ofDialect {dialect : Dialect} {registry : Registry}
    (unambiguous : dialect.Unambiguous) (built : ofDialect dialect = .ok registry) :
    registry.LaidOut ∧ registry.Registered := by
  let Placed (registry : Registry) : Prop := registry.LaidOut ∧ registry.Registered
  refine @holds_of_closed dialect Placed registry built
    (fun _ takes => ⟨takes.laidOut unambiguous, takes.registered unambiguous⟩) ?_
    (fun _ _ same holds =>
      ⟨{ holds.1 with verbatim := same.trans holds.1.verbatim }, { holds.2 with }⟩)
    (fun _ _ holds => ⟨{ holds.1 with }, { holds.2 with }⟩)
  rintro label - earlier name later rfl sound done ⟨laidOut, registered⟩
  have growth := growth_of_intern done
  exact ⟨laidOut.continued ((growth.extension sound).continuation sound) sound,
    growth.registered unambiguous sound laidOut registered⟩

theorem Reachable.registered {dialect : Dialect} {registry : Registry}
    (reachable : Reachable dialect registry) (unambiguous : dialect.Unambiguous) :
    registry.Registered := by
  induction reachable with
  | start built => exact (registered_ofDialect unambiguous built).2
  | step command earlier induction =>
      have laidOut := earlier.laidOut unambiguous
      rcases earlier.sound with ⟨rfl, sound⟩
      rcases perform_cases command sound.arena with
        growth | ⟨used, illegal, changes, chosen, relabels⟩
      · exact growth.registered unambiguous sound laidOut induction
      · exact relabels.registered chosen sound laidOut induction

/-! ## Every lookup answers the registered name -/

private theorem layout_of_typeLabels {dialect : Dialect} {index : Nat} {label : Label}
    (listed : dialect.typeLabels[index]? = some label) : dialect.layout[index]? = some label := by
  rw [Dialect.layout, List.getElem?_append_left (List.getElem?_eq_some_iff.mp listed).1]
  exact listed

namespace Registered

variable {registry : Registry} (registered : registry.Registered) (regular : registry.Regular)

include registered

private theorem findType?_eq_some_iff (unambiguous : registry.dialect.Unambiguous) {label : Label}
    {name : Name} :
    registry.findType? label = some name ↔
      label ∈ registry.dialect.types ∧ registry.dialect.typeLabels[name.index]? = some label := by
  constructor
  · intro found
    have member := mem_types_of_findType? found
    rw [← registered.declared]
    exact ⟨List.mem_map_of_mem member, registered.placed name label member⟩
  · intro given
    rcases given with ⟨declared, placed⟩
    rw [← registered.declared] at declared
    rcases exists_findType?_of_mem declared with ⟨type, found, member⟩
    have same := unambiguous.index_unique
      (layout_of_typeLabels (registered.placed type label member)) (layout_of_typeLabels placed)
    rw [found]
    exact congrArg (some ∘ Name.mk) same

private theorem findType?_listed (unambiguous : registry.dialect.Unambiguous) {index : Nat}
    {label : Label} (listed : registry.dialect.layout[index]? = some label)
    (declared : label ∈ registry.dialect.types) : registry.findType? label = some ⟨index⟩ := by
  have member : label ∈ registry.dialect.typeLabels := by
    by_cases empty : label = ""
    · rw [empty]
      exact List.mem_cons_self
    · exact List.mem_cons_of_mem _ (List.mem_filter.mpr ⟨declared, by simpa using empty⟩)
  rcases List.getElem?_of_mem member with ⟨place, placed⟩
  have same := unambiguous.index_unique (layout_of_typeLabels placed) listed
  exact (registered.findType?_eq_some_iff unambiguous).mpr ⟨declared, same ▸ placed⟩

include regular

private theorem eq_of_label? {index : Nat} {label : Label} {name : Name}
    (listed : registry.dialect.layout[index]? = some label)
    (labelled : registry.label? name = some label) : name = ⟨index⟩ := by
  unfold label? at labelled
  split at labelled
  · next text carried =>
      cases labelled
      exact registered.alone index label name listed carried
  · next uncarried =>
      split at labelled
      · rcases Option.map_eq_some_iff.mp labelled with ⟨record, found, rfl⟩
        rcases registered.recorded name record found with inRange | verbatim
        · rcases regular.separated.fixed name inRange with ⟨position, defined⟩
          rcases regular.sound.arena.label?_isSome defined with ⟨text, carried⟩
          exact absurd (carried.symm.trans uncarried) (by simp)
        · have unread := regular.unambiguous.unread_of_mem_layout (List.mem_of_getElem? listed)
          rw [Builtin.isVerbatim, unread] at verbatim
          exact absurd verbatim (by simp)
      · exact absurd labelled (by simp)

section Listed

variable {index : Nat} {label : Label} (listed : registry.dialect.layout[index]? = some label)

include listed

private theorem find?_listed : registry.find? label = some ⟨index⟩ := by
  have carried := regular.laidOut.labels index label listed
  cases found : registry.find? label with
  | none => exact absurd carried ((find?_eq_none_iff regular.sound.arena).mp found ⟨index⟩)
  | some name => rw [registered.alone index label name listed (label?_of_find? found)]

private theorem intern_listed : intern label registry = .ok ⟨index⟩ registry := by
  have valid := regular.sound.arena
  have ordinary := regular.unambiguous.ordinary_of_unread
    (regular.unambiguous.unread_of_mem_layout (List.mem_of_getElem? listed))
  rcases regular.laidOut.exists_present? regular.unambiguous valid ordinary
    (regular.laidOut.labels index label listed) with ⟨name, present⟩
  have carried := (carries_iff valid).mp (regular.carries_of_present? present)
  rw [← registered.alone index label name listed carried]
  exact intern_present ordinary present

private theorem findBuiltin?_listed (enumerated : label ∈ registry.dialect.builtinLabels) :
    registry.findBuiltin? label = some ⟨index⟩ := by
  have nonempty : label ≠ "" := fun empty => regular.unambiguous.labelled (empty ▸ enumerated)
  rcases regular.laidOut.exists_builtinName enumerated nonempty with ⟨name, member, carried⟩
  rcases exists_findBuiltin?_of_mem member carried with ⟨found, first⟩
  have foundLabel : registry.label? found = some label := by
    simpa using List.find?_some first
  rw [first, registered.eq_of_label? regular listed foundLabel]

end Listed

/-! ### Ranges -/

omit regular in
private theorem containsType_iff (unambiguous : registry.dialect.Unambiguous)
    (laidOut : registry.LaidOut) {name : Name} :
    registry.boundaries.containsType name = true ↔
      ∃ label ∈ registry.dialect.types, registry.findType? label = some name := by
  simp only [registered.findType?_eq_some_iff unambiguous]
  rw [laidOut.boundaries, Boundaries.containsType, decide_eq_true_iff]
  have begin : registry.dialect.boundaries.beginTypes.index =
      if "" ∈ registry.dialect.types then 0 else 1 := by
    rw [Dialect.boundaries]
    split <;> rfl
  constructor
  · intro inRange
    have inside : name.index < registry.dialect.typeLabels.length := inRange.2
    have low := Name.le_def.mp inRange.1
    rw [begin] at low
    have listed : ∃ label, registry.dialect.typeLabels[name.index]? = some label :=
      ⟨_, List.getElem?_eq_getElem inside⟩
    rcases listed with ⟨label, placed⟩
    -- Only the first label need not be a declared one, and then the range begins after it.
    have declared : label ∈ registry.dialect.types := by
      rcases List.mem_cons.mp (List.mem_of_getElem? placed) with rfl | declared
      · have first : name.index = 0 :=
          unambiguous.index_unique (layout_of_typeLabels placed) (layout_of_typeLabels rfl)
        rw [first] at low
        by_contra undeclared
        rw [if_neg undeclared] at low
        omega
      · exact List.mem_of_mem_filter declared
    exact ⟨label, declared, declared, placed⟩
  · intro given
    rcases given with ⟨label, declared, -, placed⟩
    refine ⟨?_, (List.getElem?_eq_some_iff.mp placed).1⟩
    rw [Name.le_def, begin]
    split
    · exact Nat.zero_le _
    · next unnamed =>
        by_contra low
        have first : name.index = 0 := by omega
        rw [first] at placed
        cases placed
        exact unnamed declared

private theorem containsBuiltin_iff {name : Name} :
    registry.boundaries.containsBuiltin name = true ↔
      name = registry.predefined.verbatim ∨
        ∃ label ∈ registry.dialect.builtinLabels, registry.findBuiltin? label = some name := by
  have laidOut := regular.laidOut
  constructor
  · intro inRange
    rw [laidOut.boundaries, Boundaries.containsBuiltin, decide_eq_true_iff] at inRange
    have low : registry.dialect.typeLabels.length ≤ name.index := inRange.1
    rcases Nat.exists_eq_add_of_le low with ⟨offset, place⟩
    have listed : ∃ label, registry.dialect.layout[name.index]? = some label :=
      ⟨_, List.getElem?_eq_getElem inRange.2⟩
    rcases listed with ⟨label, listed⟩
    cases offset with
    | zero => exact .inl ((congrArg Name.mk place).trans laidOut.verbatim.symm)
    | succ offset =>
        have located := listed
        rw [Dialect.layout, place, List.getElem?_append_right (Nat.le_add_right _ _),
          Nat.add_sub_cancel_left, List.getElem?_cons_succ] at located
        have enumerated := List.mem_of_mem_filter (List.mem_of_getElem? located)
        exact .inr ⟨label, enumerated,
          registered.findBuiltin?_listed regular listed enumerated⟩
  · intro given
    rcases given with rfl | ⟨label, enumerated, found⟩
    · exact laidOut.containsBuiltin_verbatim
    · exact decide_eq_true (findBuiltin?_lt found)

end Registered

/-! ## The guarantee -/

/-- A registry can be set up for every unambiguous dialect that there is room for. Its first
names are the empty name, the types, the verbatim base and the built-ins, and every lookup
keeps answering them for their labels, which no other name comes to have. -/
theorem registered_labels_agree {dialect : Dialect} (unambiguous : dialect.Unambiguous) :
    ((∃ registry, ofDialect dialect = .ok registry) ∨
      Arena.capacity < dialect.types.length + dialect.builtinLabels.length + 13 ∧
        ∃ count, ofDialect dialect = .error (.arenaFull count)) ∧
    dialect.layout = "" :: dialect.types.filter (· ≠ "") ++
      verbatimBaseLabel :: dialect.builtinLabels ∧
    ∀ registry, Reachable dialect registry →
      (registry.boundaries.endTypes = registry.boundaries.beginBuiltins ∧
        registry.predefined.verbatim = registry.boundaries.beginBuiltins ∧
        registry.boundaries.endBuiltins = ⟨dialect.layout.length⟩ ∧
        registry.typeCount = dialect.types.length) ∧
      (∀ index label, dialect.layout[index]? = some label →
        registry.label? ⟨index⟩ = some label ∧
        (∀ name, registry.label? name = some label → name = ⟨index⟩) ∧
        registry.find? label = some ⟨index⟩ ∧
        intern label registry = .ok ⟨index⟩ registry ∧
        (label ∈ dialect.types → registry.findType? label = some ⟨index⟩) ∧
        (label ∈ dialect.builtinLabels → registry.findBuiltin? label = some ⟨index⟩)) ∧
      ∀ name, (registry.isType name = true ↔ ∃ base, registry.base? name = some base ∧
          ∃ label ∈ dialect.types, registry.findType? label = some base) ∧
        (registry.isBuiltin name = true ↔ ∃ base, registry.base? name = some base ∧
          (base = registry.predefined.verbatim ∨
            ∃ label ∈ dialect.builtinLabels, registry.findBuiltin? label = some base)) := by
  refine ⟨ofDialect_cases unambiguous, unambiguous.layout_eq, fun registry reachable => ?_⟩
  have regular := reachable.regular unambiguous
  have registered := reachable.registered unambiguous
  have laidOut := regular.laidOut
  rcases reachable.sound with ⟨rfl, -⟩
  refine ⟨⟨?_, ?_, ?_, ?_⟩, fun index label listed => ?_, fun name => ⟨?_, ?_⟩⟩
  · rw [laidOut.boundaries]
    rfl
  · rw [laidOut.verbatim, laidOut.boundaries]
  · rw [laidOut.boundaries]
    rfl
  · rw [typeCount, laidOut.boundaries]
    exact unambiguous.typeCount_eq
  · have labelled : registry.label? ⟨index⟩ = some label := by
      simp only [label?, laidOut.labels index label listed]
    exact ⟨labelled, fun name => registered.eq_of_label? regular listed,
      registered.find?_listed regular listed, registered.intern_listed regular listed,
      registered.findType?_listed unambiguous listed,
      registered.findBuiltin?_listed regular listed⟩
  · rw [isType, Option.any_eq_true]
    simp only [registered.containsType_iff unambiguous laidOut]
  · rw [isBuiltin, Option.any_eq_true]
    simp only [registered.containsBuiltin_iff regular]

/-- Variants of a built-in and of a type get labels of their own, and the built-in and the type
are found as before. -/
theorem registered_labels_agree_beside_variants :
    ∃ registry, Reachable .typed registry ∧ registry.label? ⟨21⟩ = some "add_1" ∧
      registry.label? ⟨22⟩ = some "bool_1" ∧
      (registry.label? ⟨4⟩ = some "add" ∧
        (∀ name, registry.label? name = some "add" → name = ⟨4⟩) ∧
        registry.find? "add" = some ⟨4⟩ ∧ intern "add" registry = .ok ⟨4⟩ registry ∧
        registry.findBuiltin? "add" = some ⟨4⟩) ∧
      registry.find? "bool" = some ⟨2⟩ ∧ registry.findType? "bool" = some ⟨2⟩ := by
  have passed : reaches .typed [.derive ⟨4⟩, .derive ⟨2⟩, .assignLabels [⟨21⟩, ⟨22⟩] []]
      (fun registry => decide (registry.label? ⟨21⟩ = some "add_1" ∧
        registry.label? ⟨22⟩ = some "bool_1")) = true := by
    decide +kernel
  rcases exists_of_reaches passed with ⟨start, built, tested⟩
  rcases of_decide_eq_true tested with ⟨add, bool⟩
  have reachable := (Reachable.start built).run
    [.derive ⟨4⟩, .derive ⟨2⟩, .assignLabels [⟨21⟩, ⟨22⟩] []]
  rcases registered_labels_agree Dialect.wellFormed_typed.toUnambiguous with ⟨-, -, agree⟩
  have listed := (agree _ reachable).2.1
  rcases listed 4 "add" (by decide +kernel) with
    ⟨addLabel, addAlone, addFound, addInterned, -, addBuiltin⟩
  rcases listed 2 "bool" (by decide +kernel) with ⟨-, -, boolFound, -, boolType, -⟩
  exact ⟨_, reachable, add, bool,
    ⟨addLabel, addAlone, addFound, addInterned, addBuiltin (by decide +kernel)⟩,
    boolFound, boolType (by decide +kernel)⟩

end Registry

end NameRegistry
