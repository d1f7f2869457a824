import NameRegistry.Proofs.Review
import NameRegistry.Proofs.SuffixSearch

/-! # How labels are chosen

The second walk changes the registry while it goes on, but only by aliases. What
it chooses is therefore described by the registry from before the walk and the
aliases made so far.
-/

namespace NameRegistry.Registry

namespace Relabelling

def name : Relabelling → Name
  | .generated name _ => name
  | .aliased name _ _ => name

def label : Relabelling → Label
  | .generated _ label => label
  | .aliased _ _ label => label

def shared? (wanted : Name) : Relabelling → Option Label
  | .generated .. => none
  | .aliased name _ label => if name = wanted then some label else none

end Relabelling

def sharedLabel? (changes : List Relabelling) (name : Name) : Option Label :=
  changes.findSome? (Relabelling.shared? name)

def currentBase? (registry : Registry) (changes : List Relabelling) (name : Name) :
    Option Label :=
  (registry.base? name).bind fun base =>
    (sharedLabel? changes base).or (registry.arena.label? base)

def inUse (taken illegal : List Label) (changes : List Relabelling) : List Label :=
  changes.map Relabelling.label ++ taken ++ illegal

private theorem mem_inUse_concat {taken illegal : List Label} {changes : List Relabelling}
    {change : Relabelling} {label : Label} :
    label ∈ inUse taken illegal (changes ++ [change]) ↔
      label = change.label ∨ label ∈ inUse taken illegal changes := by
  simp only [inUse, List.map_append, List.map_singleton, List.append_assoc, List.mem_append,
    List.mem_singleton]
  rw [or_left_comm]

inductive Chosen (registry : Registry) (taken illegal : List Label) :
    List Relabelling → Prop where
  | nil : Chosen registry taken illegal []
  | snoc {changes : List Relabelling} {change : Relabelling} {base : Label}
      (earlier : Chosen registry taken illegal changes)
      (current : registry.currentBase? changes change.name = some base)
      (free : change.label = Suffix.free base (inUse taken illegal changes))
      (fresh : change.isGenerated = true ↔
        ∀ carrier, registry.arena.label? carrier ≠ some change.label) :
      Chosen registry taken illegal (changes ++ [change])

/-! ## Shared labels -/

private theorem sharedLabel?_concat (changes : List Relabelling) (change : Relabelling)
    (name : Name) :
    sharedLabel? (changes ++ [change]) name =
      (sharedLabel? changes name).or (change.shared? name) := by
  simp [sharedLabel?, List.findSome?_append]

theorem exists_aliased {changes : List Relabelling} {name : Name} {label : Label}
    (shared : sharedLabel? changes name = some label) :
    ∃ existing, Relabelling.aliased name existing label ∈ changes := by
  rcases List.exists_of_findSome?_eq_some shared with ⟨change, member, found⟩
  cases change with
  | generated => exact absurd found (by simp [Relabelling.shared?])
  | aliased other existing text =>
      simp only [Relabelling.shared?, Option.ite_none_right_eq_some, Option.some.injEq] at found
      rcases found with ⟨rfl, rfl⟩
      exact ⟨existing, member⟩

theorem sharedLabel?_of_aliased {changes : List Relabelling}
    (distinct : (changes.map Relabelling.name).Nodup) {name existing : Name} {label : Label}
    (member : Relabelling.aliased name existing label ∈ changes) :
    sharedLabel? changes name = some label := by
  induction changes with
  | nil => exact absurd member (by simp)
  | cons change changes induction =>
      have parts := List.nodup_cons.mp distinct
      rw [sharedLabel?, List.findSome?_cons]
      rcases List.mem_cons.mp member with rfl | later
      · simp [Relabelling.shared?]
      · have different : change.name ≠ name := fun same =>
          parts.1 (same ▸ List.mem_map_of_mem later)
        have unshared : change.shared? name = none := by
          cases change with
          | generated => rfl
          | aliased => exact if_neg different
        rw [unshared]
        exact induction parts.2 later

theorem sharedLabel?_eq_none {changes : List Relabelling} {name : Name}
    (absent : name ∉ changes.map Relabelling.name) : sharedLabel? changes name = none := by
  cases shared : sharedLabel? changes name with
  | none => rfl
  | some label =>
      rcases exists_aliased shared with ⟨existing, member⟩
      exact absurd (List.mem_map_of_mem member) absent

private theorem sharedLabel?_concat_aliased {changes : List Relabelling} {name : Name}
    (absent : name ∉ changes.map Relabelling.name) (existing : Name) (label : Label)
    (other : Name) :
    sharedLabel? (changes ++ [.aliased name existing label]) other =
      if other = name then some label else sharedLabel? changes other := by
  rw [sharedLabel?_concat, Relabelling.shared?]
  by_cases same : other = name
  · subst same
    simp [sharedLabel?_eq_none absent]
  · rw [if_neg same, if_neg (Ne.symm same), Option.or_none]

/-! ## Following the walk -/

/-- What the second walk has done so far, told from the registry before it. -/
structure Follows (registry : Registry) (taken illegal : List Label) (progress : Progress) :
    Prop where
  frame : progress.registry = { registry with arena := progress.registry.arena }
  arena : progress.registry.arena.Valid
  labels : progress.registry.arena.labels = registry.arena.labels
  size : progress.registry.size = registry.size
  occupied : ∀ label, label ∈ progress.taken ++ illegal ↔
    label ∈ inUse taken illegal progress.changes
  untouched : ∀ name, sharedLabel? progress.changes name = none →
    progress.registry.state? name = registry.state? name
  shared : ∀ name label, sharedLabel? progress.changes name = some label →
    progress.registry.arena.label? name = some label
  released : ∀ change ∈ progress.changes, ∀ label,
    registry.arena.label? change.name = some label → label ∈ taken
  chosen : Chosen registry taken illegal progress.changes

namespace Follows

variable {registry : Registry} {taken illegal : List Label} {progress : Progress}

theorem start (valid : registry.arena.Valid) {known : List Label}
    (same : ∀ label, label ∈ known ↔ label ∈ taken) :
    Follows registry taken illegal { registry, taken := known } where
  frame := rfl
  arena := valid
  labels := rfl
  size := rfl
  occupied := fun label => by simp [inUse, same]
  untouched := fun _ _ => rfl
  shared := fun _ _ shared => absurd shared (by simp [sharedLabel?])
  released := fun _ member => absurd member (by simp)
  chosen := .nil

variable (follows : Follows registry taken illegal progress) (valid : registry.arena.Valid)

include follows

theorem evolves : registry.Evolves progress.registry := by
  rw [follows.frame]
  refine { Evolves.refl registry with size := Nat.le_of_eq follows.size.symm, labels := ?_ }
  rw [LabelTable.Grows, follows.labels]
  exact fun _ _ kept => kept

theorem registry_eq (none : progress.changes = []) : progress.registry = registry := by
  have entries : progress.registry.arena.entries = registry.arena.entries := by
    apply Array.ext_getElem?
    intro index
    exact follows.untouched ⟨index⟩ (by simp [none, sharedLabel?])
  have arena : progress.registry.arena = registry.arena :=
    congrArg₂ Arena.mk entries follows.labels
  rw [follows.frame, arena]

include valid

theorem arenaLabel?_eq (name : Name) :
    progress.registry.arena.label? name =
      (sharedLabel? progress.changes name).or (registry.arena.label? name) := by
  cases shared : sharedLabel? progress.changes name with
  | some label => simpa using follows.shared name label shared
  | none => simpa using follows.evolves.arenaLabel?_eq valid (follows.untouched name shared)

theorem baseLabel?_eq {name : Name} (absent : name ∉ progress.changes.map Relabelling.name) :
    progress.registry.baseLabel? name = registry.currentBase? progress.changes name := by
  have state := follows.untouched name (sharedLabel?_eq_none absent)
  have same : progress.registry.arena.base? name = registry.arena.base? name :=
    base?_congr valid follows.arena state
  have labels : progress.registry.arena.label? = fun base =>
      (sharedLabel? progress.changes base).or (registry.arena.label? base) := by
    funext base
    exact follows.arenaLabel?_eq valid base
  simp only [Registry.baseLabel?, Arena.baseLabel?, currentBase?, Registry.base?, same, labels]

theorem ownsLabel_eq {name : Name} (absent : name ∉ progress.changes.map Relabelling.name) :
    progress.registry.ownsLabel name = registry.ownsLabel name :=
  follows.evolves.ownsLabel_eq valid follows.arena
    (follows.untouched name (sharedLabel?_eq_none absent))

private theorem carried_iff {label : Label} (free : label ∉ inUse taken illegal progress.changes) :
    (∃ carrier, progress.registry.arena.label? carrier = some label) ↔
      ∃ carrier, registry.arena.label? carrier = some label := by
  constructor
  · intro carried
    rcases carried with ⟨carrier, labelled⟩
    rw [follows.arenaLabel?_eq valid] at labelled
    cases shared : sharedLabel? progress.changes carrier with
    | none => exact ⟨carrier, by simpa [shared] using labelled⟩
    | some other =>
        rw [shared, Option.some_or] at labelled
        cases labelled
        rcases exists_aliased shared with ⟨existing, member⟩
        have given := List.mem_map_of_mem (f := Relabelling.label) member
        exact absurd (List.mem_append_left _ (List.mem_append_left _ given)) free
  · intro carried
    rcases carried with ⟨carrier, labelled⟩
    refine ⟨carrier, ?_⟩
    rw [follows.arenaLabel?_eq valid]
    cases shared : sharedLabel? progress.changes carrier with
    | none => simpa using labelled
    | some other =>
        rcases exists_aliased shared with ⟨existing, member⟩
        have used := follows.released _ member label labelled
        exact absurd (List.mem_append_left _ (List.mem_append_right _ used)) free

omit valid in
private theorem occupied_concat (change : Relabelling) (label : Label) :
    label ∈ (change.label :: progress.taken) ++ illegal ↔
      label ∈ inUse taken illegal (progress.changes ++ [change]) := by
  rw [mem_inUse_concat, List.cons_append, List.mem_cons, follows.occupied]

omit valid in
private theorem released_concat {change : Relabelling}
    (released : ∀ label, registry.arena.label? change.name = some label → label ∈ taken) :
    ∀ other ∈ progress.changes ++ [change], ∀ label,
      registry.arena.label? other.name = some label → label ∈ taken := by
  intro other member label labelled
  rcases List.mem_append.mp member with old | new
  · exact follows.released other old label labelled
  · cases List.mem_singleton.mp new
    exact released label labelled

section Change

variable {name : Name} {base label : Label}
  (current : registry.currentBase? progress.changes name = some base)
  (free : label = Suffix.free base (inUse taken illegal progress.changes))
  (released : ∀ label, registry.arena.label? name = some label → label ∈ taken)

include current free released

omit valid in
private theorem generate (uncarried : ∀ carrier, registry.arena.label? carrier ≠ some label) :
    Follows registry taken illegal
      { registry := progress.registry
        taken := label :: progress.taken
        changes := progress.changes ++ [.generated name label] } := by
  have unshared (other : Name) :
      sharedLabel? (progress.changes ++ [.generated name label]) other =
        sharedLabel? progress.changes other := by
    rw [sharedLabel?_concat, Relabelling.shared?, Option.or_none]
  exact { follows with
    occupied := follows.occupied_concat (.generated name label)
    untouched := fun other shared => follows.untouched other ((unshared other).symm.trans shared)
    shared := fun other text shared =>
      follows.shared other text ((unshared other).symm.trans shared)
    released := @released_concat _ _ _ _ follows (.generated name label) released
    chosen := .snoc follows.chosen current free ⟨fun _ => uncarried, fun _ => rfl⟩ }

omit valid in
private theorem share (absent : name ∉ progress.changes.map Relabelling.name)
    (inside : registry.contains name = true) (existing : Name) {position : LabelIndex}
    (kept : progress.registry.arena.labels.get? position = some label)
    (carried : ∃ carrier, registry.arena.label? carrier = some label) :
    Follows registry taken illegal
      { registry := { progress.registry with
          arena := progress.registry.arena.redefine name position }
        taken := label :: progress.taken
        changes := progress.changes ++ [.aliased name existing label] } := by
  have liveInside : progress.registry.arena.contains name = true :=
    follows.evolves.contains inside
  have nowShared := sharedLabel?_concat_aliased absent existing label
  have notFresh : (Relabelling.aliased name existing label).isGenerated = true ↔
      ∀ carrier, registry.arena.label? carrier ≠ some label := by
    rcases carried with ⟨carrier, labelled⟩
    exact ⟨fun generated => absurd generated (by simp [Relabelling.isGenerated]),
      fun uncarried => absurd labelled (uncarried carrier)⟩
  exact {
    frame := by rw [follows.frame]
    arena := follows.arena.redefine name kept
    labels := follows.labels
    size := (Arena.size_redefine _ _ _).trans follows.size
    occupied := follows.occupied_concat (.aliased name existing label)
    released := @released_concat _ _ _ _ follows (.aliased name existing label) released
    untouched := by
      intro other unshared
      rw [nowShared] at unshared
      split at unshared
      · exact absurd unshared (by simp)
      · next different =>
          exact (Arena.state?_redefine_of_ne _ different position).trans
            (follows.untouched other unshared)
    shared := by
      intro other text shared
      rw [nowShared] at shared
      split at shared
      · next same =>
          cases shared
          cases same
          exact Arena.label?_redefine_self liveInside kept
      · next different =>
          exact (Arena.label?_redefine_of_ne _ different position).trans
            (follows.shared other text shared)
    chosen := .snoc follows.chosen current free notFresh }

end Change

theorem relabel {name : Name} {base : Label}
    (absent : name ∉ progress.changes.map Relabelling.name)
    (inside : registry.contains name = true)
    (current : registry.currentBase? progress.changes name = some base)
    (released : ∀ label, registry.arena.label? name = some label → label ∈ taken) :
    ∃ change, change.name = name ∧
      (progress.relabel illegal name base).changes = progress.changes ++ [change] ∧
      Follows registry taken illegal (progress.relabel illegal name base) := by
  have same := Suffix.free_congr base follows.occupied
  have free := Suffix.free_not_mem base (inUse taken illegal progress.changes)
  have carried := follows.carried_iff valid free
  rw [← same] at carried
  unfold Progress.relabel
  simp only
  cases found : progress.registry.arena.carrier?
      (Suffix.free base (progress.taken ++ illegal)) with
  | none =>
      refine ⟨.generated name _, rfl, rfl, follows.generate current same released ?_⟩
      intro carrier labelled
      rcases carried.mpr ⟨carrier, labelled⟩ with ⟨live, liveLabelled⟩
      rcases follows.arena.exists_carrier? liveLabelled with ⟨existing, position, present⟩
      exact absurd (found.symm.trans present) (by simp)
  | some carrier =>
      rcases carrier with ⟨existing, position⟩
      exact ⟨.aliased name existing _, rfl, rfl, follows.share current same released absent
        inside existing (Arena.carrier?_eq_some found).2
        (carried.mp ⟨existing, Arena.label?_of_carrier? found⟩)⟩

end Follows

end NameRegistry.Registry
