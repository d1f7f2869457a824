import NameRegistry.Proofs.Separation

/-! # The layout of a finished registry

In an unambiguous dialect each label that is taken in gets a name of its own, at the label's
own position. So the names up to the end of the built-ins are told by the dialect: the empty
name, the types, the verbatim base and the built-ins, each group in its order.
-/

namespace NameRegistry

namespace Arena

/-! ## Labels and names in step -/

/-- The arena in which each name carries the label at its own position. -/
def ofLabels (labels : List Label) : Arena where
  entries := ((List.range labels.length).map fun index => .defined ⟨index⟩).toArray
  labels := ⟨labels.toArray⟩

@[simp] private theorem size_ofLabels (labels : List Label) :
    (ofLabels labels).size = labels.length := by
  simp [ofLabels, size]

theorem label?_ofLabels (labels : List Label) (name : Name) :
    (ofLabels labels).label? name = labels[name.index]? := by
  by_cases inside : name.index < labels.length
  · have defined : (ofLabels labels).state? name = some (.defined ⟨name.index⟩) := by
      simp [ofLabels, state?, inside]
    rw [label?_of_defined defined]
    simp [ofLabels, LabelTable.get?]
  · have outside : (ofLabels labels).state? name = none := by
      simp [ofLabels, state?, inside]
    simp [label?, outside, inside]

private theorem find?_ofLabels {labels : List Label} {label : Label} (new : label ∉ labels) :
    (ofLabels labels).labels.find? label = none := by
  rw [LabelTable.find?_eq_none_iff]
  intro position kept
  exact new (List.mem_of_getElem? (by simpa [ofLabels, LabelTable.get?] using kept))

private theorem define_ofLabels {labels : List Label} {label : Label} (new : label ∉ labels) :
    ((ofLabels labels).withLabel label).append
      (.defined ((ofLabels labels).labels.position label)) = ofLabels (labels ++ [label]) := by
  have absent := find?_ofLabels new
  have position : (ofLabels labels).labels.position label = ⟨labels.length⟩ := by
    rw [LabelTable.position, absent]
    rfl
  have interned : (ofLabels labels).labels.withLabel label =
      (ofLabels labels).labels.push label := by
    rw [LabelTable.withLabel, absent]
  rw [position, withLabel, interned]
  simp [append, ofLabels, LabelTable.push, List.range_succ]

end Arena

/-! ## What a dialect lays out -/

namespace Dialect

/-- The labels of the names before the built-ins. -/
def typeLabels (dialect : Dialect) : List Label := "" :: dialect.types.filter (· ≠ "")

/-- The labels of the names up to the end of the built-ins. -/
def layout (dialect : Dialect) : List Label :=
  dialect.typeLabels ++ verbatimBaseLabel :: dialect.builtinLabels.filter (· ≠ "")

def boundaries (dialect : Dialect) : Boundaries where
  beginTypes := if "" ∈ dialect.types then .empty else ⟨1⟩
  endTypes := ⟨dialect.typeLabels.length⟩
  beginBuiltins := ⟨dialect.typeLabels.length⟩
  endBuiltins := ⟨dialect.layout.length⟩

def labelsAfterTypes (types : List Label) : List Label := "" :: types.filter (· ≠ "")

theorem labelsAfterTypes_unnamed (types : List Label) :
    labelsAfterTypes (types ++ [""]) = labelsAfterTypes types := by
  simp [labelsAfterTypes]

theorem labelsAfterTypes_named (types : List Label) {label : Label} (nonempty : label ≠ "") :
    labelsAfterTypes (types ++ [label]) = labelsAfterTypes types ++ [label] := by
  simp [labelsAfterTypes, nonempty]

def labelsAfterBuiltins (dialect : Dialect) (builtins : List Label) : List Label :=
  dialect.typeLabels ++ verbatimBaseLabel :: builtins.filter (· ≠ "")

theorem labelsAfterBuiltins_unnamed (dialect : Dialect) (builtins : List Label) :
    dialect.labelsAfterBuiltins (builtins ++ [""]) = dialect.labelsAfterBuiltins builtins := by
  simp [labelsAfterBuiltins]

theorem labelsAfterBuiltins_named (dialect : Dialect) (builtins : List Label) {label : Label}
    (nonempty : label ≠ "") :
    dialect.labelsAfterBuiltins (builtins ++ [label]) =
      dialect.labelsAfterBuiltins builtins ++ [label] := by
  simp [labelsAfterBuiltins, nonempty]

namespace Unambiguous

variable {dialect : Dialect} (unambiguous : dialect.Unambiguous)

include unambiguous

theorem nodup_layout : dialect.layout.Nodup := by
  have parts := List.nodup_append.mp unambiguous.distinct
  have notBase := unambiguous.notBase
  rw [List.mem_append, not_or] at notBase
  have notEmpty : verbatimBaseLabel ≠ "" := by decide
  have apart : ∀ label ∈ dialect.types, label ∉ dialect.builtinLabels :=
    fun label declared enumerated => parts.2.2 label declared label enumerated rfl
  simp only [layout, typeLabels, List.cons_append, List.nodup_cons, List.nodup_append,
    List.mem_append, List.mem_cons, List.mem_filter]
  refine ⟨?_, parts.1.filter _, ⟨?_, parts.2.1.filter _⟩, ?_⟩
  · simp [notEmpty.symm]
  · exact fun member => notBase.2 member.1
  · intro label declared other member same
    subst same
    rcases member with rfl | enumerated
    · exact notBase.1 declared.1
    · exact apart label declared.1 enumerated.1

private theorem base_not_mem_typeLabels : verbatimBaseLabel ∉ dialect.typeLabels := fun member =>
  (List.nodup_append.mp unambiguous.nodup_layout).2.2 _ member _ List.mem_cons_self rfl

private theorem not_mem_of_place {seen rest : List Label} {label : Label}
    (place : dialect.types = seen ++ label :: rest) (nonempty : label ≠ "") :
    label ∉ labelsAfterTypes seen :=
  @Lists.not_mem_append_filter _ [""] _ _ _ _ (· ≠ "")
    (List.nodup_append.mp unambiguous.nodup_layout).1 place (by simpa using nonempty)

private theorem not_mem_of_builtin_place {seen rest : List Label} {label : Label}
    (place : dialect.builtinLabels = seen ++ label :: rest) (nonempty : label ≠ "") :
    label ∉ dialect.labelsAfterBuiltins seen := by
  have nodup := unambiguous.nodup_layout
  rw [layout, List.append_cons] at nodup
  rw [labelsAfterBuiltins, List.append_cons]
  exact Lists.not_mem_append_filter nodup place (by simpa using nonempty)

theorem unread_of_mem_layout {label : Label} (member : label ∈ dialect.layout) :
    Verbatim.ofLabel? label = none := by
  simp only [layout, typeLabels, List.cons_append, List.mem_cons, List.mem_append,
    List.mem_filter] at member
  rcases member with rfl | declared | rfl | enumerated
  · decide +kernel
  · exact unambiguous.notVerbatim label (List.mem_append_left _ declared.1)
  · decide +kernel
  · exact unambiguous.notVerbatim label (List.mem_append_right _ enumerated.1)

theorem enumerated_of_layout {index : Nat} {label : Label} {definition : Builtin}
    (listed : dialect.layout[index]? = some label)
    (found : dialect.builtin? label = some definition) : label ∈ dialect.builtinLabels := by
  rcases unambiguous.listed label definition found with enumerated | ⟨arity, read⟩
  · exact enumerated
  · have unread := unambiguous.unread_of_mem_layout (List.mem_of_getElem? listed)
    exact absurd (read.symm.trans unread) (by simp)

private theorem builtin?_before {label : Label}
    (listed : label ∈ dialect.typeLabels ++ [verbatimBaseLabel]) :
    dialect.builtin? label = none := by
  have nodup := unambiguous.nodup_layout
  rw [layout, List.append_cons] at nodup
  cases found : dialect.builtin? label with
  | none => rfl
  | some definition =>
      have member : label ∈ dialect.layout := by
        rw [layout, List.append_cons]
        exact List.mem_append_left _ listed
      rcases List.getElem?_of_mem member with ⟨index, placed⟩
      have enumerated := unambiguous.enumerated_of_layout placed found
      have nonempty : label ≠ "" := fun empty => unambiguous.labelled (empty ▸ enumerated)
      have again : label ∈ dialect.builtinLabels.filter (· ≠ "") :=
        List.mem_filter.mpr ⟨enumerated, by simpa using nonempty⟩
      exact absurd rfl ((List.nodup_append.mp nodup).2.2 label listed label again)

end Unambiguous

end Dialect

namespace Registry

/-! ## During the setup -/

/-- A registry that has taken in some labels and has not closed its range of built-ins. -/
structure Laying (dialect : Dialect) (labels : List Label) (registry : Registry) : Prop
    extends Unclosed dialect registry where
  arena : registry.arena = .ofLabels labels

namespace Laying

variable {dialect : Dialect} {labels : List Label} {registry later : Registry} {label : Label}
  {name : Name} (laying : Laying dialect labels registry)

include laying

private theorem next_eq : registry.arena.next = ⟨labels.length⟩ := by
  rw [laying.arena, Arena.next, Arena.size_ofLabels]

private theorem present?_eq_none (new : label ∉ labels) : registry.present? label = none := by
  unfold present?
  split
  · exact laying.findBuiltin?_eq_none label
  · simp [find?, Arena.carrier?, laying.arena, Arena.find?_ofLabels new]

private theorem intern (unambiguous : dialect.Unambiguous) (listed : label ∈ setupLabels dialect)
    (new : label ∉ labels) (done : Registry.intern label registry = .ok name later) :
    name = ⟨labels.length⟩ ∧ later = registry.defined label ∧
      Laying dialect (labels ++ [label]) (registry.defined label) := by
  have ordinary := laying.toUnclosed.ordinary unambiguous listed
  rcases intern_eq_ok_of_absent ordinary (laying.present?_eq_none new) done with ⟨rfl, rfl⟩
  refine ⟨laying.next_eq, rfl, laying.toUnclosed.growth (growth_of_intern done), ?_⟩
  have appended := Arena.define_ofLabels new
  rw [← laying.arena] at appended
  exact appended

end Laying

/-! ### The types -/

private structure LayingTypes (dialect : Dialect) (seen : List Label) (registry : Registry) : Prop
    extends Laying dialect (Dialect.labelsAfterTypes seen) registry where
  boundaries : registry.boundaries = { beginTypes := dialect.boundaries.beginTypes }
  declared : registry.types.map (·.2) = seen
  placed : ∀ name label, (name, label) ∈ registry.types →
    (Dialect.labelsAfterTypes seen)[name.index]? = some label
  unrecorded : registry.builtins = []

namespace LayingTypes

variable {dialect : Dialect} {seen : List Label} {registry : Registry}

private theorem start (dialect : Dialect) :
    LayingTypes dialect [] { ({ dialect } : Registry).defined "" with
      boundaries.beginTypes := dialect.boundaries.beginTypes } where
  toUnclosed := (TakesTypes.start : TakesTypes dialect [] _).unclosed
  arena := @Arena.define_ofLabels [] "" List.not_mem_nil
  boundaries := rfl
  declared := rfl
  placed := fun _ _ listed => absurd listed List.not_mem_nil
  unrecorded := rfl

private theorem unnamed (laying : LayingTypes dialect seen registry) :
    LayingTypes dialect (seen ++ [""])
      { registry with types := registry.types ++ [(.empty, "")] } := by
  have same := Dialect.labelsAfterTypes_unnamed seen
  refine
    { toUnclosed := laying.toUnclosed.withTypes _
      arena := same ▸ laying.arena
      boundaries := laying.boundaries
      declared := ?_
      placed := fun name label listed => ?_
      unrecorded := laying.unrecorded }
  · rw [List.map_append, laying.declared]
    rfl
  · rw [same]
    rcases List.mem_append.mp listed with old | added
    · exact laying.placed name label old
    · cases List.mem_singleton.mp added
      rfl

private theorem named {rest : List Label} {later : Registry} {label : Label} {name : Name}
    (laying : LayingTypes dialect seen registry) (unambiguous : dialect.Unambiguous)
    (place : dialect.types = seen ++ label :: rest) (nonempty : label ≠ "")
    (done : Registry.intern label registry = .ok name later) :
    LayingTypes dialect (seen ++ [label])
      { later with types := later.types ++ [(name, label)] } := by
  have listed := type_mem_setupLabels (Lists.mem_of_place place)
  rcases laying.intern unambiguous listed (unambiguous.not_mem_of_place place nonempty) done with
    ⟨rfl, rfl, entered⟩
  have next := Dialect.labelsAfterTypes_named seen nonempty
  refine
    { toUnclosed := entered.toUnclosed.withTypes _
      arena := next ▸ entered.arena
      boundaries := laying.boundaries
      declared := ?_
      placed := fun other text listed => ?_
      unrecorded := laying.unrecorded }
  · rw [List.map_append]
    exact congrArg (· ++ [label]) laying.declared
  · rw [next]
    rcases List.mem_append.mp listed with old | added
    · have before := laying.placed other text old
      rw [List.getElem?_append_left (List.getElem?_eq_some_iff.mp before).1]
      exact before
    · cases List.mem_singleton.mp added
      simp

end LayingTypes

private theorem TakesTypes.laying {dialect : Dialect} {seen : List Label} {registry : Registry}
    (takes : TakesTypes dialect seen registry) (unambiguous : dialect.Unambiguous) :
    LayingTypes dialect seen registry := by
  induction takes with
  | start => exact .start dialect
  | unnamed _ _ induction => exact induction.unnamed
  | named place _ nonempty done induction =>
      exact induction.named unambiguous place nonempty done

/-! ### The built-ins -/

/-- The types have been listed under their names, and the names of the built-ins that have been
taken in have the records of their labels. -/
structure LayingBuiltins (dialect : Dialect) (seen : List Label) (registry : Registry) : Prop
    extends Laying dialect (dialect.labelsAfterBuiltins seen) registry where
  boundaries : registry.boundaries = { dialect.boundaries with endBuiltins := .empty }
  verbatim : registry.predefined.verbatim = dialect.boundaries.beginBuiltins
  declared : registry.types.map (·.2) = dialect.types
  placed : ∀ name label, (name, label) ∈ registry.types →
    dialect.typeLabels[name.index]? = some label
  records : ∀ index, registry.builtin? ⟨index⟩ =
    ((dialect.labelsAfterBuiltins seen)[index]?.bind
      dialect.builtin?).map (registry.nameBuiltin ⟨index⟩)

namespace LayingBuiltins

variable {dialect : Dialect} {seen : List Label} {registry : Registry}

private theorem start {later : Registry} {verbatim : Name}
    (laying : LayingTypes dialect dialect.types registry) (unambiguous : dialect.Unambiguous)
    (done : Registry.intern verbatimBaseLabel registry.separated = .ok verbatim later) :
    LayingBuiltins dialect [] { later with predefined.verbatim := verbatim } := by
  have begun : Laying dialect dialect.typeLabels registry.separated :=
    { laying.toUnclosed.separated with arena := laying.arena }
  have based := begun.toUnclosed.withVerbatim done
  rcases begun.intern unambiguous base_mem_setupLabels unambiguous.base_not_mem_typeLabels done with
    ⟨rfl, rfl, entered⟩
  refine
    { toUnclosed := based
      arena := entered.arena
      boundaries := ?_
      verbatim := rfl
      declared := laying.declared
      placed := laying.placed
      records := fun index => ?_ }
  · show registry.separated.boundaries = _
    rw [separated, laying.boundaries, laying.next_eq]
    rfl
  · -- The types and the verbatim base are not defined, so the records may begin after them.
    have undefined : (dialect.typeLabels ++ [verbatimBaseLabel])[index]?.bind
        dialect.builtin? = none := by
      rw [Option.bind_eq_none_iff]
      exact fun label listed => unambiguous.builtin?_before (List.mem_of_getElem? listed)
    have unrecorded : registry.builtin? ⟨index⟩ = none := by
      rw [builtin?, laying.unrecorded]
      rfl
    exact unrecorded.trans (congrArg (Option.map _) undefined).symm

private theorem unnamed (laying : LayingBuiltins dialect seen registry) :
    LayingBuiltins dialect (seen ++ [""]) registry := by
  have same := dialect.labelsAfterBuiltins_unnamed seen
  exact { laying with
    arena := same ▸ laying.arena
    records := same ▸ laying.records }

private theorem named {later : Registry} {label : Label}
    (laying : LayingBuiltins dialect seen registry) (nonempty : label ≠ "")
    (entered : Laying dialect
      (dialect.labelsAfterBuiltins seen ++ [label]) later)
    (others : later = { registry.defined label with builtins := later.builtins })
    (records : ∀ index, later.builtin? ⟨index⟩ =
      if index = (dialect.labelsAfterBuiltins seen).length then
        (dialect.builtin? label).map (registry.nameBuiltin ⟨index⟩)
      else registry.builtin? ⟨index⟩) :
    LayingBuiltins dialect (seen ++ [label]) later := by
  have next := dialect.labelsAfterBuiltins_named seen nonempty
  have named : later.nameBuiltin = registry.nameBuiltin := by
    rw [others]
    rfl
  refine
    { toUnclosed := entered.toUnclosed
      arena := next ▸ entered.arena
      boundaries := ?_
      verbatim := ?_
      declared := ?_
      placed := ?_
      records := fun index => ?_ }
  · rw [others]
    exact laying.boundaries
  · rw [others]
    exact laying.verbatim
  · rw [others]
    exact laying.declared
  · rw [others]
    exact laying.placed
  · rw [next, Lists.bind_getElem?_concat, records, named]
    split
    · rfl
    · exact laying.records index

private theorem unrecorded (laying : LayingBuiltins dialect seen registry) :
    registry.builtin?
      ⟨(dialect.labelsAfterBuiltins seen).length⟩ = none := by
  rw [laying.records, List.getElem?_eq_none (Nat.le_refl _)]
  rfl

end LayingBuiltins

theorem TakesBuiltins.laying {dialect : Dialect} {seen : List Label} {registry : Registry}
    (takes : TakesBuiltins dialect seen registry) (unambiguous : dialect.Unambiguous) :
    LayingBuiltins dialect seen registry := by
  induction takes with
  | start types done => exact .start (types.laying unambiguous) unambiguous done
  | unnamed _ _ induction => exact induction.unnamed
  | undefined place _ nonempty done missing induction =>
      have new := unambiguous.not_mem_of_builtin_place place nonempty
      have listed := builtin_mem_setupLabels (Lists.mem_of_place place)
      rcases induction.intern unambiguous listed new done with ⟨rfl, rfl, entered⟩
      refine induction.named nonempty entered rfl fun index => ?_
      split
      · next last =>
          subst last
          exact induction.unrecorded.trans (congrArg (Option.map _) missing).symm
      · rfl
  | @defined before _ _ _ _ _ _ place _ nonempty done found induction =>
      have new := unambiguous.not_mem_of_builtin_place place nonempty
      have listed := builtin_mem_setupLabels (Lists.mem_of_place place)
      rcases induction.intern unambiguous listed new done with ⟨rfl, rfl, entered⟩
      refine induction.named nonempty
        { entered.toUnclosed.recorded _ _ with arena := entered.arena } rfl fun index => ?_
      rw [builtin?_recorded, found]
      by_cases last : index = (dialect.labelsAfterBuiltins before).length
      · rw [if_pos last, last, if_pos rfl]
        rfl
      · have apart : (⟨(dialect.labelsAfterBuiltins before).length⟩ : Name) ≠ ⟨index⟩ :=
          fun same => last (Name.mk.inj same).symm
        rw [if_neg last, if_neg apart]
        rfl

/-! ## The finished registry -/

/-- The names up to the end of the built-ins are those of the dialect's layout. -/
structure LaidOut (registry : Registry) : Prop where
  boundaries : registry.boundaries = registry.dialect.boundaries
  verbatim : registry.predefined.verbatim = registry.dialect.boundaries.beginBuiltins
  labels : ∀ index label, registry.dialect.layout[index]? = some label →
    registry.arena.label? ⟨index⟩ = some label

namespace LaidOut

variable {registry later : Registry} (laidOut : registry.LaidOut)

include laidOut

theorem lt_endBuiltins_iff {name : Name} :
    name < registry.boundaries.endBuiltins ↔ name.index < registry.dialect.layout.length := by
  rw [laidOut.boundaries]
  exact Name.lt_def

theorem continued (continuation : registry.Continuation later) (sound : registry.Sound) :
    later.LaidOut where
  boundaries := by rw [continuation.boundaries, continuation.dialect, laidOut.boundaries]
  verbatim := by rw [continuation.predefined, continuation.dialect, laidOut.verbatim]
  labels := by
    intro index label listed
    rw [continuation.dialect] at listed
    have inside : (⟨index⟩ : Name) < registry.boundaries.endBuiltins :=
      laidOut.lt_endBuiltins_iff.mpr (List.getElem?_eq_some_iff.mp listed).1
    exact (continuation.toEvolves.arenaLabel?_eq sound.arena
      (continuation.fixed ⟨index⟩ inside)).trans (laidOut.labels index label listed)

theorem containsBuiltin_verbatim :
    registry.boundaries.containsBuiltin registry.predefined.verbatim = true := by
  have begin : registry.dialect.typeLabels.length < registry.dialect.layout.length := by
    simp [Dialect.layout]
  rw [laidOut.verbatim, laidOut.boundaries, Boundaries.containsBuiltin, decide_eq_true_iff]
  exact ⟨Nat.le_refl _, begin⟩

theorem exists_builtinName {label : Label} (enumerated : label ∈ registry.dialect.builtinLabels)
    (nonempty : label ≠ "") :
    ∃ name ∈ registry.builtinNames, registry.arena.label? name = some label := by
  have member : label ∈ verbatimBaseLabel :: registry.dialect.builtinLabels.filter (· ≠ "") :=
    List.mem_cons_of_mem _ (List.mem_filter.mpr ⟨enumerated, by simpa using nonempty⟩)
  rcases List.getElem?_of_mem member with ⟨offset, located⟩
  have listed : registry.dialect.layout[registry.dialect.typeLabels.length + offset]? =
      some label := by
    rw [Dialect.layout, List.getElem?_append_right (Nat.le_add_right _ _), Nat.add_sub_cancel_left]
    exact located
  have inside := (List.getElem?_eq_some_iff.mp listed).1
  refine ⟨⟨registry.dialect.typeLabels.length + offset⟩, mem_builtinNames.mpr ⟨?_, ?_⟩,
    laidOut.labels _ label listed⟩
  · rw [laidOut.boundaries]
    exact Nat.le_add_right _ _
  · exact laidOut.lt_endBuiltins_iff.mpr inside

end LaidOut

theorem TakesBuiltins.laidOut {dialect : Dialect} {filled : Registry}
    (takes : TakesBuiltins dialect dialect.builtinLabels filled)
    (unambiguous : dialect.Unambiguous) : filled.closed.LaidOut := by
  have laying := takes.laying unambiguous
  have subject := laying.subject
  subst subject
  refine ⟨?_, laying.verbatim, fun index label listed => ?_⟩
  · rw [closed, laying.boundaries, laying.next_eq]
    rfl
  · show filled.arena.label? ⟨index⟩ = some label
    rw [laying.arena, Arena.label?_ofLabels]
    exact listed

theorem Reachable.laidOut {dialect : Dialect} {registry : Registry}
    (reachable : Reachable dialect registry) (unambiguous : dialect.Unambiguous) :
    registry.LaidOut :=
  reachable.holds_of_closed (fun _ takes => takes.laidOut unambiguous)
    (fun _ _ same laidOut => { laidOut with verbatim := same.trans laidOut.verbatim })
    (fun _ _ laidOut => { laidOut with })
    fun _ _ sound continuation laidOut => laidOut.continued continuation sound

/-! ## Registries of an unambiguous dialect -/

/-- What holds of every registry that can be reached in an unambiguous dialect. -/
structure Regular (registry : Registry) : Prop where
  unambiguous : registry.dialect.Unambiguous
  sound : registry.Sound
  separated : registry.Separated
  laidOut : registry.LaidOut

theorem Reachable.regular {dialect : Dialect} {registry : Registry}
    (reachable : Reachable dialect registry) (unambiguous : dialect.Unambiguous) :
    registry.Regular where
  unambiguous := reachable.sound.1.symm ▸ unambiguous
  sound := reachable.sound.2
  separated := reachable.separated_of_unambiguous unambiguous
  laidOut := reachable.laidOut unambiguous

end Registry

end NameRegistry
