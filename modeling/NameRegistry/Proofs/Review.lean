import Mathlib.Data.List.Basic
import NameRegistry.Proofs.Ascending
import NameRegistry.Proofs.Evolution

/-! # Who keeps a label

The first walk over the used names finds the labels in use and the names whose
label cannot stay. Both can be said of the registry at once, without the walk.
-/

namespace NameRegistry.Registry

/-! ## Clashes -/

/-- Whether the label of a name cannot stay: it is illegal, or a type, a built-in
or a smaller used name has it already. -/
def clashes (registry : Registry) (used : List Name) (illegal : List Label) (name : Name) :
    Bool :=
  (registry.label? name).any fun label =>
    label ∈ illegal ∨ label ∈ registry.fixedLabels ∨
      ∃ earlier ∈ used, earlier < name ∧ registry.ownsLabel earlier ∧
        registry.label? earlier = some label

/-- Whether a used name is to get a new label. -/
def needsLabel (registry : Registry) (used : List Name) (illegal : List Label) (name : Name) :
    Bool :=
  !registry.ownsLabel name || registry.clashes used illegal name

/-- The labels of the used names that may keep one. -/
def ownedLabels (registry : Registry) (used : List Name) : List Label :=
  (used.filter registry.ownsLabel).filterMap registry.label?

theorem mem_fixedLabels {registry : Registry} {label : Label} :
    label ∈ registry.fixedLabels ↔
      ∃ name, name < registry.boundaries.endBuiltins ∧ registry.label? name = some label := by
  simp only [fixedLabels, List.mem_filterMap, List.mem_range]
  constructor
  · intro given
    rcases given with ⟨index, inside, labelled⟩
    exact ⟨⟨index⟩, inside, labelled⟩
  · intro given
    rcases given with ⟨name, inside, labelled⟩
    exact ⟨name.index, inside, labelled⟩

theorem Evolves.fixedLabels_eq {registry later : Registry} (evolves : registry.Evolves later)
    (consistent : registry.Consistent) (laterValid : later.arena.Valid)
    (states : ∀ name, name < registry.boundaries.endBuiltins →
      later.state? name = registry.state? name) :
    later.fixedLabels = registry.fixedLabels := by
  unfold fixedLabels
  rw [evolves.boundaries]
  apply List.filterMap_congr
  intro index early
  have less : (⟨index⟩ : Name) < registry.boundaries.endBuiltins := List.mem_range.mp early
  exact evolves.label?_eq consistent.arena laterValid (states _ less)
    (consistent.contains_of_lt less)

theorem mem_ownedLabels {registry : Registry} {used : List Name} {label : Label} :
    label ∈ registry.ownedLabels used ↔
      ∃ name ∈ used, registry.ownsLabel name = true ∧ registry.label? name = some label := by
  simp [ownedLabels, and_assoc]

theorem clashes_iff {registry : Registry} {used : List Name} {illegal : List Label}
    {name : Name} :
    registry.clashes used illegal name = true ↔
      ∃ label, registry.label? name = some label ∧
        (label ∈ illegal ∨ label ∈ registry.fixedLabels ∨
          ∃ earlier ∈ used, earlier < name ∧ registry.ownsLabel earlier = true ∧
            registry.label? earlier = some label) := by
  simp [clashes, Option.any_eq_true]

theorem clashes_eq_false {registry : Registry} {used : List Name} {illegal : List Label}
    {name : Name} {label : Label} (fits : registry.clashes used illegal name = false)
    (labelled : registry.label? name = some label) :
    label ∉ illegal ∧ label ∉ registry.fixedLabels ∧
      ∀ earlier ∈ used, earlier < name → registry.ownsLabel earlier = true →
        registry.label? earlier ≠ some label := by
  have noClash (reason : label ∈ illegal ∨ label ∈ registry.fixedLabels ∨
      ∃ earlier ∈ used, earlier < name ∧ registry.ownsLabel earlier = true ∧
        registry.label? earlier = some label) : False := by
    have clash := clashes_iff.mpr ⟨label, labelled, reason⟩
    exact absurd (clash.symm.trans fits) (by simp)
  exact ⟨fun bad => noClash (.inl bad), fun fixed => noClash (.inr (.inl fixed)),
    fun earlier member less owned same =>
      noClash (.inr (.inr ⟨earlier, member, less, owned, same⟩))⟩

theorem needsLabel_eq_false {registry : Registry} {used : List Name} {illegal : List Label}
    {name : Name} (kept : registry.needsLabel used illegal name = false) :
    registry.ownsLabel name = true ∧ registry.clashes used illegal name = false := by
  simpa [needsLabel] using kept

theorem mem_openNames {registry : Registry} {name : Name} :
    name ∈ registry.openNames ↔
      registry.boundaries.endBuiltins ≤ name ∧ registry.contains name = true := by
  have inside : registry.contains name = true ↔ name.index < registry.size := decide_eq_true_iff
  rw [inside]
  exact mem_namesBetween

theorem ascending_openNames (registry : Registry) : Ascending registry.openNames :=
  ascending_namesBetween registry.boundaries.endBuiltins.index registry.size

/-! ## The first walk -/

theorem requireLabel_eq_ok {registry : Registry} {name : Name} {label : Label} :
    registry.requireLabel name = .ok label ↔
      registry.contains name = true ∧ registry.label? name = some label := by
  unfold requireLabel
  by_cases inside : registry.contains name = true
  · cases labelled : registry.label? name <;> simp [inside]
  · simp [inside]

/-- What the first walk knows after the names `done`. -/
structure Reviewed (registry : Registry) (illegal : List Label) (done : List Name)
    (review : Review) : Prop where
  taken : ∀ label, label ∈ review.taken ↔
    label ∈ registry.fixedLabels ++ registry.ownedLabels done
  clashing : ∀ name, name ∈ review.clashing ↔
    name ∈ done ∧ registry.ownsLabel name = true ∧ registry.clashes done illegal name = true
  labelled : ∀ name ∈ done, registry.ownsLabel name = true →
    registry.contains name = true ∧ ∃ label, registry.label? name = some label

private theorem reviewName_eq_ok {registry : Registry} {illegal : List Label} {review next : Review}
    {name : Name} (owned : registry.ownsLabel name = true)
    (done : registry.reviewName illegal review name = .ok next) :
    ∃ label, registry.contains name = true ∧ registry.label? name = some label ∧
      next.taken = label :: review.taken ∧
      next.clashing = if label ∈ review.taken ∨ label ∈ illegal then name :: review.clashing
        else review.clashing := by
  rw [reviewName, if_pos owned] at done
  cases required : registry.requireLabel name with
  | error error =>
      rw [required] at done
      exact absurd done (by simp [bind, Except.bind])
  | ok label =>
      rw [required] at done
      cases done
      rcases requireLabel_eq_ok.mp required with ⟨inside, labelled⟩
      exact ⟨label, inside, labelled, rfl, rfl⟩

theorem reviewName_of_not_owned {registry : Registry} {illegal : List Label} {review : Review}
    {name : Name} (derived : registry.ownsLabel name = false) :
    registry.reviewName illegal review name = .ok review := by
  rw [reviewName, if_neg (by simp [derived])]

private theorem ownedLabels_concat (registry : Registry) (done : List Name) (name : Name) :
    registry.ownedLabels (done ++ [name]) =
      registry.ownedLabels done ++ registry.ownedLabels [name] := by
  simp [ownedLabels]

private theorem ownedLabels_singleton {registry : Registry} {name : Name} {label : Label}
    (owned : registry.ownsLabel name = true) (labelled : registry.label? name = some label) :
    registry.ownedLabels [name] = [label] := by
  simp [ownedLabels, owned, labelled]

private theorem clashes_concat {registry : Registry} {done : List Name} {illegal : List Label}
    {name other : Name} (notSmaller : ¬name < other) :
    registry.clashes (done ++ [name]) illegal other = registry.clashes done illegal other := by
  have smaller (label : Label) :
      (∃ earlier ∈ done ++ [name], earlier < other ∧ registry.ownsLabel earlier = true ∧
          registry.label? earlier = some label) ↔
        ∃ earlier ∈ done, earlier < other ∧ registry.ownsLabel earlier = true ∧
          registry.label? earlier = some label := by
    simp [or_and_right, exists_or, notSmaller]
  rw [Bool.eq_iff_iff, clashes_iff, clashes_iff]
  simp only [smaller]

namespace Reviewed

variable {registry : Registry} {illegal : List Label} {done : List Name} {name : Name}
  {review next : Review}

private theorem start (registry : Registry) (illegal : List Label) :
    Reviewed registry illegal [] { taken := registry.fixedLabels } where
  taken := by simp [ownedLabels]
  clashing := by simp
  labelled := by simp

private theorem clashes_iff_taken (reviewed : Reviewed registry illegal done review)
    (last : ∀ earlier ∈ done, earlier < name) {label : Label}
    (labelled : registry.label? name = some label) :
    registry.clashes done illegal name = true ↔ label ∈ review.taken ∨ label ∈ illegal := by
  rw [clashes_iff, reviewed.taken, List.mem_append, mem_ownedLabels]
  constructor
  · intro given
    rcases given with ⟨other, same, clash⟩
    cases labelled.symm.trans same
    rcases clash with bad | fixed | ⟨earlier, member, -, owned⟩
    · exact .inr bad
    · exact .inl (.inl fixed)
    · exact .inl (.inr ⟨earlier, member, owned⟩)
  · intro given
    rcases given with (fixed | ⟨earlier, member, owned⟩) | bad
    · exact ⟨label, labelled, .inr (.inl fixed)⟩
    · exact ⟨label, labelled, .inr (.inr ⟨earlier, member, last earlier member, owned⟩)⟩
    · exact ⟨label, labelled, .inl bad⟩

omit review next in
private theorem clashing_concat_iff (last : ∀ earlier ∈ done, earlier < name) {other : Name} :
    (other ∈ done ++ [name] ∧ registry.ownsLabel other = true ∧
        registry.clashes (done ++ [name]) illegal other = true) ↔
      (other ∈ done ∧ registry.ownsLabel other = true ∧
          registry.clashes done illegal other = true) ∨
        other = name ∧ registry.ownsLabel name = true ∧
          registry.clashes done illegal name = true := by
  have unaffected {earlier : Name} (member : earlier ∈ done) :
      registry.clashes (done ++ [name]) illegal earlier = registry.clashes done illegal earlier :=
    clashes_concat fun less => lt_irrefl _ (lt_trans less (last earlier member))
  rw [List.mem_append, List.mem_singleton]
  constructor
  · intro given
    rcases given with ⟨member | same, owned, clash⟩
    · exact .inl ⟨member, owned, (unaffected member).symm.trans clash⟩
    · subst same
      exact .inr ⟨rfl, owned, (clashes_concat (lt_irrefl other)).symm.trans clash⟩
  · intro given
    rcases given with ⟨member, owned, clash⟩ | ⟨same, owned, clash⟩
    · exact ⟨.inl member, owned, (unaffected member).trans clash⟩
    · subst same
      exact ⟨.inr rfl, owned, (clashes_concat (lt_irrefl other)).trans clash⟩

private theorem step_of_not_owned (reviewed : Reviewed registry illegal done review)
    (last : ∀ earlier ∈ done, earlier < name) (derived : registry.ownsLabel name = false) :
    Reviewed registry illegal (done ++ [name]) review where
  taken := by
    intro label
    rw [reviewed.taken, ownedLabels_concat]
    simp [ownedLabels, derived]
  clashing := by
    intro other
    rw [reviewed.clashing, clashing_concat_iff last]
    simp [derived]
  labelled := by
    intro other member owned
    rcases List.mem_append.mp member with earlier | final
    · exact reviewed.labelled other earlier owned
    · cases List.mem_singleton.mp final
      exact absurd (derived.symm.trans owned) (by simp)

private theorem step_of_owned (reviewed : Reviewed registry illegal done review)
    (last : ∀ earlier ∈ done, earlier < name) (owned : registry.ownsLabel name = true)
    (visited : registry.reviewName illegal review name = .ok next) :
    Reviewed registry illegal (done ++ [name]) next := by
  rcases reviewName_eq_ok owned visited with ⟨label, inside, labelled, taken, clashing⟩
  have clash := reviewed.clashes_iff_taken last labelled
  refine ⟨fun other => ?_, fun other => ?_, fun other member otherOwned => ?_⟩
  · rw [taken, List.mem_cons, reviewed.taken, ownedLabels_concat,
      ownedLabels_singleton owned labelled, ← List.append_assoc,
      List.mem_append (t := [label]), List.mem_singleton, or_comm]
  · rw [clashing_concat_iff last, ← reviewed.clashing, clash, clashing]
    split
    · next clashed => simp [owned, clashed, or_comm]
    · next fits => simp [fits]
  · rcases List.mem_append.mp member with earlier | final
    · exact reviewed.labelled other earlier otherOwned
    · cases List.mem_singleton.mp final
      exact ⟨inside, label, labelled⟩

private theorem step (reviewed : Reviewed registry illegal done review)
    (last : ∀ earlier ∈ done, earlier < name)
    (visited : registry.reviewName illegal review name = .ok next) :
    Reviewed registry illegal (done ++ [name]) next := by
  cases owned : registry.ownsLabel name with
  | false =>
      cases (reviewName_of_not_owned owned).symm.trans visited
      exact reviewed.step_of_not_owned last owned
  | true => exact reviewed.step_of_owned last owned visited

private theorem steps {rest : List Name} (reviewed : Reviewed registry illegal done review)
    (ascending : Ascending (done ++ rest))
    (walked : rest.foldlM (registry.reviewName illegal) review = .ok next) :
    Reviewed registry illegal (done ++ rest) next := by
  induction rest generalizing done review with
  | nil =>
      cases walked
      simpa using reviewed
  | cons name rest induction =>
      rw [List.foldlM_cons] at walked
      cases visited : registry.reviewName illegal review name with
      | error error =>
          rw [visited] at walked
          exact absurd walked (by simp [bind, Except.bind])
      | ok middle =>
          rw [visited] at walked
          have last : ∀ earlier ∈ done, earlier < name := fun earlier member =>
            (List.pairwise_append.mp ascending).2.2 earlier member name List.mem_cons_self
          simpa using induction (reviewed.step last visited) (by simpa using ascending) walked

end Reviewed

theorem reviewed_of_review {registry : Registry} {used : List Name} {illegal : List Label}
    {review : Review} (succeeded : registry.review used illegal = .ok review) :
    Ascending used ∧ Reviewed registry illegal used review := by
  unfold Registry.review at succeeded
  split at succeeded
  · exact absurd succeeded (by simp)
  · next ordered =>
      have ascending := firstDescent?_eq_none_iff.mp ordered
      have start := Reviewed.start registry illegal
      exact ⟨ascending, @Reviewed.steps registry illegal [] _ _ used start ascending succeeded⟩

theorem exists_review {registry : Registry} {used : List Name} {illegal : List Label}
    (ascending : Ascending used)
    (labelled : ∀ name ∈ used, registry.ownsLabel name = true →
      registry.contains name = true ∧ ∃ label, registry.label? name = some label) :
    ∃ review, registry.review used illegal = .ok review := by
  have walk : ∀ {rest : List Name}, (∀ name ∈ rest, name ∈ used) → ∀ review : Review,
      ∃ final, rest.foldlM (registry.reviewName illegal) review = .ok final := by
    intro rest
    induction rest with
    | nil => exact fun _ review => ⟨review, rfl⟩
    | cons name rest induction =>
        intro members review
        have visited : ∃ next, registry.reviewName illegal review name = .ok next := by
          cases owned : registry.ownsLabel name with
          | false => exact ⟨review, reviewName_of_not_owned owned⟩
          | true =>
              rcases labelled name (members name List.mem_cons_self) owned with
                ⟨inside, label, known⟩
              rw [reviewName, if_pos owned, requireLabel_eq_ok.mpr ⟨inside, known⟩]
              exact ⟨_, rfl⟩
        rcases visited with ⟨next, visited⟩
        rcases induction (fun other member => members other (List.mem_cons_of_mem name member))
          next with ⟨final, walked⟩
        refine ⟨final, ?_⟩
        rw [List.foldlM_cons, visited]
        exact walked
  rw [Registry.review, firstDescent?_eq_none_iff.mpr ascending]
  exact walk (fun _ member => member) _

end NameRegistry.Registry
