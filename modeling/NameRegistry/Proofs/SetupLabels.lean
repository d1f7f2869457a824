import NameRegistry.Proofs.Declarations
import NameRegistry.Proofs.Interning

/-! # Labels that are shared from the start

The range of built-ins is empty while a registry takes in its dialect. Meanwhile the label of a
built-in is never found, so it gets a name of its own each time it is interned, whereas any
other label is found as soon as a name carries it. The labels that two names of the finished
registry carry are therefore the ones that its dialect lays out twice.
-/

namespace NameRegistry

namespace Arena

structure Shares (arena : Arena) (left right : Name) (label : Label) : Prop where
  apart : left ≠ right
  atLeft : arena.label? left = some label
  atRight : arena.label? right = some label

theorem shares_iff {arena : Arena} {left right : Name} {label : Label} :
    arena.Shares left right label ↔
      left ≠ right ∧ arena.label? left = some label ∧ arena.label? right = some label :=
  ⟨fun shares => ⟨shares.apart, shares.atLeft, shares.atRight⟩,
    fun given => ⟨given.1, given.2.1, given.2.2⟩⟩

def Shared (arena : Arena) (label : Label) : Prop :=
  ∃ left right, arena.Shares left right label

end Arena

namespace Registry

/-! ## Appending a name for a label -/

section Defined

variable {registry : Registry} (valid : registry.arena.Valid) {label other : Label}

include valid

theorem label?_defined_next :
    (registry.defined label).arena.label? registry.arena.next = some label := by
  rw [label?_defined registry _ valid, if_pos rfl]

theorem label?_defined_of_carried {name : Name}
    (carried : registry.arena.label? name = some other) :
    (registry.defined label).arena.label? name = some other := by
  rw [label?_defined registry name valid,
    if_neg (Arena.ne_next (Arena.contains_of_label? carried))]
  exact carried

private theorem carried_of_label?_defined {name : Name}
    (carried : (registry.defined label).arena.label? name = some other) :
    name = registry.arena.next ∧ label = other ∨ registry.arena.label? name = some other := by
  rw [label?_defined registry name valid] at carried
  split at carried
  · next isNext => exact .inl ⟨isNext, Option.some.inj carried⟩
  · exact .inr carried

private theorem carried_defined_iff :
    (∃ name, (registry.defined label).arena.label? name = some other) ↔
      label = other ∨ ∃ name, registry.arena.label? name = some other := by
  constructor
  · intro given
    rcases given with ⟨name, carried⟩
    rcases carried_of_label?_defined valid carried with ⟨-, same⟩ | before
    · exact .inl same
    · exact .inr ⟨name, before⟩
  · intro given
    rcases given with rfl | ⟨name, carried⟩
    · exact ⟨_, label?_defined_next valid⟩
    · exact ⟨name, label?_defined_of_carried valid carried⟩

theorem shares_of_shares_defined {left right : Name}
    (shares : (registry.defined label).arena.Shares left right other) :
    registry.arena.Shares left right other ∨
      label = other ∧ ∃ name, registry.arena.label? name = some other := by
  rcases shares with ⟨apart, atLeft, atRight⟩
  rcases carried_of_label?_defined valid atLeft with ⟨leftNext, same⟩ | leftBefore
  · rcases carried_of_label?_defined valid atRight with ⟨rightNext, -⟩ | rightBefore
    · exact absurd (leftNext.trans rightNext.symm) apart
    · exact .inr ⟨same, right, rightBefore⟩
  · rcases carried_of_label?_defined valid atRight with ⟨-, same⟩ | rightBefore
    · exact .inr ⟨same, left, leftBefore⟩
    · exact .inl ⟨apart, leftBefore, rightBefore⟩

theorem shared_defined_iff :
    (registry.defined label).arena.Shared other ↔
      registry.arena.Shared other ∨
        label = other ∧ ∃ name, registry.arena.label? name = some other := by
  constructor
  · intro shared
    rcases shared with ⟨left, right, shares⟩
    rcases shares_of_shares_defined valid shares with before | carried
    · exact .inl ⟨left, right, before⟩
    · exact .inr carried
  · intro given
    rcases given with ⟨left, right, apart, atLeft, atRight⟩ | ⟨rfl, name, carried⟩
    · exact ⟨left, right, apart, label?_defined_of_carried valid atLeft,
        label?_defined_of_carried valid atRight⟩
    · exact ⟨name, registry.arena.next, Arena.ne_next (Arena.contains_of_label? carried),
        label?_defined_of_carried valid carried, label?_defined_next valid⟩

end Defined

section Growth

variable {registry later : Registry} (growth : Growth registry later)
  (valid : registry.arena.Valid) {label : Label}

include growth valid

theorem Growth.label?_of_carried {name : Name}
    (carried : registry.arena.label? name = some label) :
    later.arena.label? name = some label :=
  (growth.evolves.arenaLabel?_eq valid
    (growth.state? (Arena.contains_of_label? carried))).trans carried

theorem Growth.shared (shared : registry.arena.Shared label) : later.arena.Shared label := by
  rcases shared with ⟨left, right, apart, atLeft, atRight⟩
  exact ⟨left, right, apart, growth.label?_of_carried valid atLeft,
    growth.label?_of_carried valid atRight⟩

end Growth

theorem label?_after_verbatimInstance (definition : Builtin) (name : Name)
    (registry : Registry) :
    (after (verbatimInstance definition) registry).arena.label? name =
      registry.arena.label? name := by
  unfold after
  rcases verbatimInstance_cases definition registry with
    ⟨known, -, existing⟩ | ⟨-, ⟨base, -, minted⟩ | ⟨error, -, failed⟩⟩
  · rw [existing]
  · rw [minted]
    exact label?_minted registry name definition base
  · rw [failed]

/-! ## Before the range of built-ins is closed -/

private def RecordsNamed (registry : Registry) : Prop :=
  ∀ name record, registry.builtin? name = some record → record.definition.name ≠ ""

private theorem Growth.recordsNamed {registry later : Registry} (growth : Growth registry later)
    (named : registry.RecordsNamed) : later.RecordsNamed := by
  cases growth with
  | same | interned | defined | derived => exact named
  | minted label definition base found verbatim =>
      intro name record known
      rw [builtin?_minted] at known
      split at known
      · cases known
        intro empty
        have unread : definition.isVerbatim = false := by
          have labelled : definition.name = "" := empty
          rw [Builtin.isVerbatim, labelled]
          decide +kernel
        exact absurd (verbatim.symm.trans unread) (by simp)
      · exact named name record known

/-- A registry that has interned some labels and has not closed its range of built-ins. -/
private structure Naming (dialect : Dialect) (labels : List Label) (registry : Registry) : Prop
    extends Unclosed dialect registry where
  carried : ∀ label, (∃ name, registry.arena.label? name = some label) ↔
    dialect.Ordinary label ∧ label ∈ labels
  shared : ∀ label, registry.arena.Shared label ↔
    dialect.Ordinary label ∧ label ∈ dialect.builtinLabels ∧ 1 < labels.count label
  records : registry.RecordsNamed

namespace Naming

variable {dialect : Dialect} {labels : List Label} {registry later : Registry} {label : Label}
  {name : Name} (naming : Naming dialect labels registry) (tabular : dialect.Tabular)

include naming tabular

private theorem present?_eq_none_iff (ordinary : dialect.Ordinary label) :
    registry.present? label = none ↔ label ∈ dialect.builtinLabels ∨ label ∉ labels := by
  have uncarried : registry.find? label = none ↔ label ∉ labels := by
    rw [find?_eq_none_iff naming.consistent.arena, ← not_exists, naming.carried label]
    simp [ordinary]
  rw [present?, naming.subject]
  split
  · next builtin =>
      have enumerated := (tabular.isSome_builtin?_iff ordinary).mp builtin
      exact ⟨fun _ => .inl enumerated, fun _ => naming.findBuiltin?_eq_none label⟩
  · next unlisted =>
      have absent : label ∉ dialect.builtinLabels := fun enumerated =>
        unlisted ((tabular.isSome_builtin?_iff ordinary).mpr enumerated)
      rw [uncarried]
      exact (or_iff_right absent).symm

private theorem defined (ordinary : dialect.Ordinary label)
    (absent : registry.present? label = none) (growth : Growth registry (registry.defined label)) :
    Naming dialect (labels ++ [label]) (registry.defined label) where
  toUnclosed := naming.toUnclosed.growth growth
  carried := by
    intro other
    rw [carried_defined_iff naming.consistent.arena, naming.carried, List.mem_append,
      List.mem_singleton]
    constructor
    · intro given
      rcases given with rfl | ⟨otherOrdinary, member⟩
      · exact ⟨ordinary, .inr rfl⟩
      · exact ⟨otherOrdinary, .inl member⟩
    · intro given
      rcases given with ⟨otherOrdinary, member | rfl⟩
      · exact .inr ⟨otherOrdinary, member⟩
      · exact .inl rfl
  shared := by
    intro other
    have counted : (labels ++ [label]).count other =
        labels.count other + if label = other then 1 else 0 := by
      simp [List.count_append, List.count_singleton]
    have before : other ∈ labels ↔ 0 < labels.count other := List.count_pos_iff.symm
    rw [shared_defined_iff naming.consistent.arena, naming.shared, naming.carried, counted]
    constructor
    · intro given
      rcases given with ⟨otherOrdinary, enumerated, twice⟩ | ⟨rfl, -, member⟩
      · exact ⟨otherOrdinary, enumerated, Nat.lt_add_right _ twice⟩
      · rw [if_pos rfl]
        rcases (naming.present?_eq_none_iff tabular ordinary).mp absent with enumerated | new
        · have once := before.mp member
          exact ⟨ordinary, enumerated, by omega⟩
        · exact absurd member new
    · intro given
      rcases given with ⟨otherOrdinary, enumerated, twice⟩
      split at twice
      · next same => exact .inr ⟨same, otherOrdinary, before.mpr (by omega)⟩
      · exact .inl ⟨otherOrdinary, enumerated, twice⟩
  records := growth.recordsNamed naming.records

omit tabular in
private theorem unchanged (growth : Growth registry later)
    (same : ∀ name, later.arena.label? name = registry.arena.label? name)
    (known : dialect.Ordinary label → label ∈ labels ∧ label ∉ dialect.builtinLabels) :
    Naming dialect (labels ++ [label]) later where
  toUnclosed := naming.toUnclosed.growth growth
  carried := by
    intro other
    simp only [same]
    rw [naming.carried, List.mem_append, List.mem_singleton]
    constructor
    · intro given
      exact ⟨given.1, .inl given.2⟩
    · intro given
      rcases given with ⟨ordinary, member | rfl⟩
      · exact ⟨ordinary, member⟩
      · exact ⟨ordinary, (known ordinary).1⟩
  shared := by
    intro other
    have shares : later.arena.Shared other ↔ registry.arena.Shared other := by
      simp only [Arena.Shared, Arena.shares_iff, same]
    rw [shares, naming.shared, List.count_append, List.count_singleton]
    refine and_congr_right fun ordinary => and_congr_right fun enumerated => ?_
    have different : label ≠ other := fun equal => by
      subst equal
      exact (known ordinary).2 enumerated
    simp [different]
  records := growth.recordsNamed naming.records

private theorem intern (done : Registry.intern label registry = .ok name later) :
    Naming dialect (labels ++ [label]) later := by
  have growth := growth_of_intern done
  rcases registry.dialect.ordinary_or_verbatim label with ordinary | ⟨definition, found, verbatim⟩
  · have ordinaryHere : dialect.Ordinary label := naming.subject ▸ ordinary
    have absence := naming.present?_eq_none_iff tabular ordinaryHere
    rcases intern_eq_ok ordinary done with ⟨present, rfl⟩ | ⟨absent, rfl, rfl⟩
    · rw [present] at absence
      simp only [reduceCtorEq, false_iff, not_or, not_not] at absence
      exact naming.unchanged growth (fun _ => rfl) fun _ => ⟨absence.2, absence.1⟩
    · exact naming.defined tabular ordinaryHere absent growth
  · have notOrdinary : dialect.Ordinary label → label ∈ labels ∧ label ∉ dialect.builtinLabels := by
      intro ordinary
      rw [naming.subject] at found
      exact absurd (verbatim.symm.trans (ordinary definition found)) (by simp)
    have same (name : Name) := label?_after_verbatimInstance definition name registry
    rw [intern_verbatim found verbatim] at done
    rw [after_of_ok done] at same
    exact naming.unchanged growth same notOrdinary

omit naming in
private theorem first :
    Naming dialect [""] { ({ dialect } : Registry).defined "" with
      boundaries.beginTypes := dialect.boundaries.beginTypes } := by
  have valid : ({ dialect } : Registry).arena.Valid := Arena.valid_empty
  have uncarried (label : Label) :
      ¬∃ name, ({ dialect } : Registry).arena.label? name = some label := by
    simp [Arena.label?, Arena.state?]
  have unshared (label : Label) : ¬({ dialect } : Registry).arena.Shared label := by
    intro shared
    rcases shared with ⟨left, right, -, atLeft, -⟩
    exact uncarried label ⟨left, atLeft⟩
  have ordinary := tabular.ordinary_empty
  refine ⟨(TakesTypes.start : TakesTypes dialect [] _).unclosed, fun label => ?_,
    fun label => ?_, fun _ _ found => ?_⟩
  · refine (carried_defined_iff valid).trans ?_
    rw [or_iff_left (uncarried label), List.mem_singleton]
    exact ⟨fun same => ⟨same ▸ ordinary, same.symm⟩, fun given => given.2.symm⟩
  · refine (shared_defined_iff valid).trans ?_
    have once : [""].count label ≤ 1 := List.count_le_length
    constructor
    · intro given
      rcases given with shared | ⟨-, carried⟩
      · exact absurd shared (unshared label)
      · exact absurd carried (uncarried label)
    · intro given
      have twice := given.2.2
      omega
  · exact absurd found (by simp [builtin?, Registry.defined, Keyed.find?])

end Naming

private theorem TakesTypes.naming {dialect : Dialect} {seen : List Label} {registry : Registry}
    (takes : TakesTypes dialect seen registry) (tabular : dialect.Tabular) :
    Naming dialect (Dialect.labelsAfterTypes seen) registry := by
  induction takes with
  | start => exact .first tabular
  | unnamed _ _ induction =>
      rw [Dialect.labelsAfterTypes_unnamed]
      exact { induction with toUnclosed := induction.toUnclosed.withTypes _ }
  | named _ _ nonempty done induction =>
      have entered := induction.intern tabular done
      rw [Dialect.labelsAfterTypes_named _ nonempty]
      exact { entered with toUnclosed := entered.toUnclosed.withTypes _ }

/-! ### The range of built-ins -/

/-- The built-ins that have been taken in carry their labels in the range of built-ins, which
does not begin with the first name. -/
private structure NamingBuiltins (dialect : Dialect) (seen : List Label) (registry : Registry) :
    Prop extends Naming dialect (dialect.labelsAfterBuiltins seen) registry where
  notFirst : Name.empty < registry.boundaries.beginBuiltins
  begin : registry.boundaries.beginBuiltins ≤ registry.arena.next
  placed : ∀ label ∈ seen, label ≠ "" → dialect.Ordinary label →
    ∃ name, registry.boundaries.beginBuiltins ≤ name ∧ registry.arena.label? name = some label

namespace NamingBuiltins

variable {dialect : Dialect}

private theorem start {verbatim : Name} {filled later : Registry}
    (naming : Naming dialect dialect.typeLabels filled) (tabular : dialect.Tabular)
    (done : Registry.intern verbatimBaseLabel filled.separated = .ok verbatim later) :
    NamingBuiltins dialect [] { later with predefined.verbatim := verbatim } := by
  have growth := growth_of_intern done
  have begun : Naming dialect dialect.typeLabels filled.separated :=
    { naming with toUnclosed := naming.toUnclosed.separated }
  have entered := begun.intern tabular done
  have begin : later.boundaries.beginBuiltins = filled.arena.next :=
    congrArg Boundaries.beginBuiltins growth.evolves.boundaries
  exact
    { entered with
      toUnclosed := begun.toUnclosed.withVerbatim done
      notFirst := begin ▸ Arena.lt_size (Arena.contains_of_label? naming.consistent.root)
      begin := begin ▸ growth.evolves.size
      placed := fun _ member => absurd member List.not_mem_nil }

variable {seen : List Label} {registry later : Registry} {label : Label} {name : Name}
  (naming : NamingBuiltins dialect seen registry) (tabular : dialect.Tabular)

include naming tabular

private theorem intern (enumerated : label ∈ dialect.builtinLabels) (nonempty : label ≠ "")
    (done : Registry.intern label registry = .ok name later) :
    NamingBuiltins dialect (seen ++ [label]) later := by
  have growth := growth_of_intern done
  have entered := naming.toNaming.intern tabular done
  rw [← dialect.labelsAfterBuiltins_named seen nonempty] at entered
  have size : registry.size ≤ later.size := growth.evolves.size
  refine ⟨entered, ?_, ?_, fun other member otherNonempty ordinary => ?_⟩
  · rw [growth.evolves.boundaries]
    exact naming.notFirst
  · rw [growth.evolves.boundaries]
    exact Nat.le_trans (Name.le_def.mp naming.begin) size
  · rw [growth.evolves.boundaries]
    rcases List.mem_append.mp member with old | new
    · rcases naming.placed other old otherNonempty ordinary with ⟨place, inRange, carried⟩
      exact ⟨place, inRange, growth.label?_of_carried naming.consistent.arena carried⟩
    · cases List.mem_singleton.mp new
      -- The label of a built-in is not found meanwhile, so it gets a new name.
      have absent := (naming.present?_eq_none_iff tabular ordinary).mpr (.inl enumerated)
      rcases intern_eq_ok_of_absent (naming.subject ▸ ordinary) absent done with ⟨-, rfl⟩
      exact ⟨registry.arena.next, naming.begin, label?_defined_next naming.consistent.arena⟩

omit tabular in
private theorem unnamed : NamingBuiltins dialect (seen ++ [""]) registry := by
  refine ⟨?_, naming.notFirst, naming.begin, fun label member nonempty => ?_⟩
  · rw [dialect.labelsAfterBuiltins_unnamed]
    exact naming.toNaming
  · rcases List.mem_append.mp member with old | new
    · exact naming.placed label old nonempty
    · exact absurd (List.mem_singleton.mp new) nonempty

private theorem recorded {definition : Builtin} (found : dialect.builtin? label = some definition)
    (nonempty : label ≠ "") (name : Name) :
    NamingBuiltins dialect seen (registry.recorded name definition) := by
  refine { naming with
    toUnclosed := naming.toUnclosed.recorded _ _, records := fun other record known => ?_ }
  rw [builtin?_recorded] at known
  split at known
  · cases known
    exact tabular.named label definition found ▸ nonempty
  · exact naming.records other record known

end NamingBuiltins

private theorem TakesBuiltins.naming {dialect : Dialect} {seen : List Label} {registry : Registry}
    (takes : TakesBuiltins dialect seen registry) (tabular : dialect.Tabular) :
    NamingBuiltins dialect seen registry := by
  induction takes with
  | start types done => exact .start (types.naming tabular) tabular done
  | unnamed _ _ induction => exact induction.unnamed
  | undefined place _ nonempty done _ induction =>
      exact induction.intern tabular (Lists.mem_of_place place) nonempty done
  | defined place _ nonempty done found induction =>
      exact (induction.intern tabular (Lists.mem_of_place place) nonempty done).recorded tabular
        found nonempty _

/-! ## The closed range of built-ins -/

/-- Every built-in with a label of its own is found in the range, and nothing is found there
for the empty label. -/
structure Listed (registry : Registry) : Prop where
  tabular : registry.dialect.Tabular
  found : ∀ label ∈ registry.dialect.builtinLabels, label ≠ "" →
    registry.dialect.Ordinary label → ∃ name, registry.findBuiltin? label = some name
  unnamed : registry.findBuiltin? "" = none

theorem TakesBuiltins.listed {dialect : Dialect} {filled : Registry}
    (takes : TakesBuiltins dialect dialect.builtinLabels filled) (tabular : dialect.Tabular) :
    filled.closed.Listed ∧
      ∀ label, filled.closed.arena.Shared label ↔ dialect.Doubled label := by
  have naming := takes.naming tabular
  have subject := naming.subject
  subst subject
  have doubled (label : Label) :
      filled.arena.Shared label ↔ filled.dialect.Doubled label :=
    (naming.shared label).trans tabular.doubled_iff.symm
  refine ⟨⟨tabular, fun label enumerated nonempty ordinary => ?_, ?_⟩, doubled⟩
  · rcases naming.placed label enumerated nonempty ordinary with ⟨name, inRange, carried⟩
    have inside := Arena.lt_size (Arena.contains_of_label? carried)
    exact @exists_findBuiltin?_of_mem filled.closed name label
      (mem_builtinNames.mpr ⟨inRange, inside⟩) carried
  · rw [findBuiltin?, List.find?_eq_none]
    intro name member labelled
    have inRange : filled.boundaries.beginBuiltins ≤ name := (mem_builtinNames.mp member).1
    have labelled := of_decide_eq_true labelled
    unfold label? at labelled
    split at labelled
    · next text carried =>
        cases labelled
        by_cases same : name = .empty
        · subst same
          exact absurd naming.notFirst (Nat.not_lt.mpr inRange)
        · exact absurd ((doubled "").mp ⟨name, .empty, same, carried, naming.consistent.root⟩)
            filled.dialect.not_doubled_empty
    · split at labelled
      · rcases Option.map_eq_some_iff.mp labelled with ⟨record, found, empty⟩
        exact naming.records name record found empty
      · exact absurd labelled (by simp)

end Registry

end NameRegistry
