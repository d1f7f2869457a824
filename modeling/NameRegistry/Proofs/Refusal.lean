import NameRegistry.Dialect.Presets
import NameRegistry.Proofs.Reachable

/-! # When an assignment is refused

Whatever is wrong with the used names is found before anything is changed. An assignment is
refused for the first neighbours that are out of order, or else for the smallest name that
should have a label and has none. Otherwise it succeeds, if the label table has room.
-/

namespace NameRegistry

/-! ## Names out of order -/

/-- These neighbours are out of order, and all neighbours before them are in order. -/
def FirstDescent (names : List Name) (previous next : Name) : Prop :=
  ∃ before after, names = before ++ previous :: next :: after ∧ next ≤ previous ∧
    (before ++ [previous]).IsChain (· < ·)

private theorem firstDescent_cons_cons_iff {first second previous next : Name} {rest : List Name} :
    FirstDescent (first :: second :: rest) previous next ↔
      (second ≤ first ∧ first = previous ∧ second = next) ∨
        first < second ∧ FirstDescent (second :: rest) previous next := by
  constructor
  · intro given
    rcases given with ⟨before, after, split, descent, chain⟩
    cases before with
    | nil =>
        cases split
        exact .inl ⟨descent, rfl, rfl⟩
    | cons head before =>
        simp only [List.cons_append, List.cons.injEq] at split
        rcases split with ⟨rfl, split⟩
        rw [List.cons_append] at chain
        cases before with
        | nil =>
            cases split
            exact .inr ⟨(List.isChain_cons_cons.mp chain).1, [], after, rfl, descent,
              (List.isChain_cons_cons.mp chain).2⟩
        | cons other before =>
            simp only [List.cons_append, List.cons.injEq] at split
            rcases split with ⟨rfl, rfl⟩
            exact .inr ⟨(List.isChain_cons_cons.mp chain).1, second :: before, after, rfl, descent,
              (List.isChain_cons_cons.mp chain).2⟩
  · intro given
    rcases given with ⟨descent, rfl, rfl⟩ | ⟨less, before, after, split, descent, chain⟩
    · exact ⟨[], rest, rfl, descent, List.IsChain.singleton _⟩
    · refine ⟨first :: before, after, by rw [split]; rfl, descent, ?_⟩
      cases before with
      | nil =>
          cases split
          exact List.isChain_cons_cons.mpr ⟨less, chain⟩
      | cons head before =>
          cases split
          exact List.isChain_cons_cons.mpr ⟨less, chain⟩

private theorem firstDescent?_eq_some_iff : ∀ {names : List Name} {previous next : Name},
    firstDescent? names = some (previous, next) ↔ FirstDescent names previous next
  | [], _, _ => by simp [firstDescent?, FirstDescent]
  | [_], _, _ => by simp [firstDescent?, FirstDescent, List.cons_eq_append_iff]
  | first :: second :: rest, previous, next => by
      rw [firstDescent?, firstDescent_cons_cons_iff, ← firstDescent?_eq_some_iff]
      by_cases less : first < second
      · simp [← not_lt, less]
      · simp [← not_lt, less]

private theorem exists_firstDescent_iff {names : List Name} :
    (∃ previous next, FirstDescent names previous next) ↔ ¬Ascending names := by
  simp only [← firstDescent?_eq_some_iff, ← firstDescent?_eq_none_iff, ← ne_eq,
    Option.ne_none_iff_exists', Prod.exists]

private theorem Ascending.find?_eq_some_iff {names : List Name} (ascending : Ascending names)
    {test : Name → Bool} {name : Name} :
    names.find? test = some name ↔
      name ∈ names ∧ test name = true ∧ ∀ other ∈ names, test other = true → name ≤ other := by
  induction names with
  | nil => simp
  | cons head tail induction =>
      have parts := List.pairwise_cons.mp ascending
      by_cases passes : test head = true
      · rw [List.find?_cons_of_pos passes, Option.some.injEq]
        constructor
        · intro same
          subst same
          refine ⟨List.mem_cons_self, passes, fun other member _ => ?_⟩
          rcases List.mem_cons.mp member with rfl | later
          · exact Nat.le_refl _
          · exact Nat.le_of_lt (parts.1 other later)
        · intro given
          rcases given with ⟨member, -, least⟩
          rcases List.mem_cons.mp member with rfl | later
          · rfl
          · have notLess := not_lt.mpr (least head List.mem_cons_self passes)
            exact absurd (parts.1 name later) notLess
      · rw [List.find?_cons_of_neg passes, induction parts.2]
        constructor
        · intro given
          rcases given with ⟨member, holds, least⟩
          refine ⟨List.mem_cons_of_mem head member, holds, fun other among otherHolds => ?_⟩
          rcases List.mem_cons.mp among with rfl | later
          · exact absurd otherHolds passes
          · exact least other later otherHolds
        · intro given
          rcases given with ⟨member, holds, least⟩
          rcases List.mem_cons.mp member with rfl | later
          · exact absurd holds passes
          · exact ⟨later, holds, fun other among => least other (List.mem_cons_of_mem head among)⟩

namespace Registry

/-! ## Names without a label -/

/-- A variant of the verbatim base that is no built-in should have a label and has none. -/
def Unlabelled (registry : Registry) (name : Name) : Prop :=
  registry.state? name = some (.derived registry.predefined.verbatim) ∧
    registry.builtin? name = none

instance (registry : Registry) : DecidablePred registry.Unlabelled := fun name =>
  inferInstanceAs (Decidable (registry.state? name = some (.derived registry.predefined.verbatim) ∧
    registry.builtin? name = none))

private theorem unlabelled_iff {registry : Registry} (valid : registry.arena.Valid) {name : Name}
    (inside : registry.contains name = true) :
    registry.Unlabelled name ↔
      registry.ownsLabel name = true ∧ registry.label? name = none := by
  rcases Arena.contains_iff.mp inside with ⟨state, known⟩
  have same : registry.state? name = some state := known
  cases state with
  | defined position =>
      rcases valid.label?_isSome known with ⟨label, carried⟩
      simp [Unlabelled, same, label?, carried]
  | derived base =>
      have linked : registry.base? name = some base := valid.base?_derived known
      have uncarried : registry.arena.label? name = none := by
        simp only [Arena.label?, known]
      by_cases verbatim : base = registry.predefined.verbatim
      · simp [Unlabelled, ownsLabel, isDerived, isVerbatim, label?, same, linked, uncarried,
          verbatim]
      · simp [Unlabelled, ownsLabel, isDerived, isVerbatim, label?, same, linked, uncarried,
          verbatim]

section Review

variable {registry : Registry} {illegal : List Label} (valid : registry.arena.Valid)

include valid

private theorem reviewName_of_unlabelled {name : Name} (inside : registry.contains name = true)
    (unlabelled : registry.Unlabelled name) (review : Review) :
    registry.reviewName illegal review name = .error (.missingLabel name) := by
  rcases (unlabelled_iff valid inside).mp unlabelled with ⟨owned, missing⟩
  rw [reviewName, if_pos owned, requireLabel, if_pos inside, missing]
  rfl

private theorem exists_reviewName {name : Name} (inside : registry.contains name = true)
    (labelled : ¬registry.Unlabelled name) (review : Review) :
    ∃ next, registry.reviewName illegal review name = .ok next := by
  cases owned : registry.ownsLabel name with
  | false => exact ⟨review, reviewName_of_not_owned owned⟩
  | true =>
      cases known : registry.label? name with
      | none => exact absurd ((unlabelled_iff valid inside).mpr ⟨owned, known⟩) labelled
      | some label =>
          rw [reviewName, if_pos owned, requireLabel_eq_ok.mpr ⟨inside, known⟩]
          exact ⟨_, rfl⟩

private theorem foldlM_reviewName_eq_error_iff {names : List Name} {review : Review}
    {error : NameError} (inside : ∀ name ∈ names, registry.contains name = true) :
    names.foldlM (registry.reviewName illegal) review = .error error ↔
      ∃ name, names.find? (registry.Unlabelled ·) = some name ∧ error = .missingLabel name := by
  induction names generalizing review with
  | nil => simp [pure, Except.pure]
  | cons name names induction =>
      have here := inside name List.mem_cons_self
      rw [List.foldlM_cons]
      by_cases unlabelled : registry.Unlabelled name
      · have first : (name :: names).find? (registry.Unlabelled ·) = some name :=
          List.find?_cons_of_pos (by simpa using unlabelled)
        rw [reviewName_of_unlabelled valid here unlabelled, first]
        simp [bind, Except.bind, eq_comm]
      · have later : (name :: names).find? (registry.Unlabelled ·) =
            names.find? (registry.Unlabelled ·) :=
          List.find?_cons_of_neg (by simpa using unlabelled)
        rcases exists_reviewName valid here unlabelled review with ⟨next, visited⟩
        rw [visited, later]
        exact induction fun other member => inside other (List.mem_cons_of_mem name member)

theorem review_eq_error_iff {used : List Name} {error : NameError}
    (inside : ∀ name ∈ used, registry.contains name = true) :
    registry.review used illegal = .error error ↔
      (∃ previous next, FirstDescent used previous next ∧
        error = .unsortedNames previous next) ∨
      Ascending used ∧ ∃ name, used.find? (registry.Unlabelled ·) = some name ∧
        error = .missingLabel name := by
  rw [Registry.review]
  cases descent : firstDescent? used with
  | some pair =>
      rcases pair with ⟨previous, next⟩
      have first := firstDescent?_eq_some_iff.mp descent
      have unordered := exists_firstDescent_iff.mp ⟨previous, next, first⟩
      simp only [unordered, false_and, or_false, Except.error.injEq, ← firstDescent?_eq_some_iff,
        descent, Option.some.injEq, Prod.mk.injEq]
      constructor
      · intro same
        exact ⟨previous, next, ⟨rfl, rfl⟩, same.symm⟩
      · intro given
        rcases given with ⟨_, _, ⟨rfl, rfl⟩, same⟩
        exact same.symm
  | none =>
      have ascending := firstDescent?_eq_none_iff.mp descent
      simp only [foldlM_reviewName_eq_error_iff valid inside, ascending, true_and,
        ← firstDescent?_eq_some_iff, descent, reduceCtorEq, false_and, exists_false, false_or]

end Review

theorem chooseLabels_eq_error_iff {registry : Registry} {used : List Name} {illegal : List Label}
    {error : NameError} :
    registry.chooseLabels used illegal = .error error ↔
      registry.review used illegal = .error error := by
  rw [chooseLabels]
  cases registry.review used illegal <;> simp [bind, Except.bind, pure, Except.pure]

/-! ## Room for labels -/

private theorem installAll_outcome (changes : List Relabelling) (registry : Registry) :
    (∃ later, changes.forM install registry = .ok () later) ∨
      Arena.labelCapacity < registry.arena.labels.size + changes.length ∧
        ∃ count later, changes.forM install registry = .error (.arenaFull count) later := by
  induction changes generalizing registry with
  | nil => exact .inl ⟨registry, rfl⟩
  | cons change changes induction =>
      have sequence : (change :: changes).forM install =
          (install change >>= fun _ => changes.forM install : Update Unit) := rfl
      rw [sequence, List.length_cons]
      simp only [bind, EStateM.bind]
      rcases install_cases change registry with
        ⟨-, done⟩ | ⟨-, done | ⟨full, count, failed⟩⟩
      · rw [done]
        rcases induction registry with installed | ⟨full, failed⟩
        · exact .inl installed
        · exact .inr ⟨by omega, failed⟩
      · have more := registry.arena.labels.size_withLabel_le change.label
        rw [done]
        rcases induction { registry with
            arena := (registry.arena.withLabel change.label).redefine change.name
              (registry.arena.labels.position change.label) } with installed | ⟨full, failed⟩
        · exact .inl installed
        · have sizes : Arena.labelCapacity <
              (registry.arena.labels.withLabel change.label).size + changes.length := full
          exact .inr ⟨by omega, failed⟩
      · rw [failed]
        exact .inr ⟨by omega, count, registry, rfl⟩

/-! ## Outcomes -/

private theorem assignLabels_of_review_error {registry : Registry} {used : List Name}
    {illegal : List Label} {error : NameError}
    (failed : registry.review used illegal = .error error) :
    assignLabels used illegal registry = .error error registry := by
  rw [assignLabels_eq, chooseLabels_eq_error_iff.mpr failed]

section Outcomes

variable {registry : Registry} {used : List Name} (valid : registry.arena.Valid)
  (inside : ∀ name ∈ used, registry.contains name = true) (illegal : List Label)

include valid inside

private theorem assignLabels_of_descent {previous next : Name}
    (descent : FirstDescent used previous next) :
    assignLabels used illegal registry = .error (.unsortedNames previous next) registry :=
  assignLabels_of_review_error
    ((review_eq_error_iff valid inside).mpr (.inl ⟨previous, next, descent, rfl⟩))

private theorem assignLabels_of_unlabelled (ascending : Ascending used)
    (missing : ∃ name ∈ used, registry.Unlabelled name) :
    ∃ name, (name ∈ used ∧ registry.Unlabelled name ∧
        ∀ other ∈ used, registry.Unlabelled other → name ≤ other) ∧
      assignLabels used illegal registry = .error (.missingLabel name) registry := by
  have present : (used.find? (registry.Unlabelled ·)).isSome := by
    simpa [List.find?_isSome] using missing
  rcases Option.isSome_iff_exists.mp present with ⟨name, found⟩
  refine ⟨name, by simpa using ascending.find?_eq_some_iff.mp found, ?_⟩
  exact assignLabels_of_review_error
    ((review_eq_error_iff valid inside).mpr (.inr ⟨ascending, name, found, rfl⟩))

private theorem assignLabels_of_labelled (ascending : Ascending used)
    (labelled : ∀ name ∈ used, ¬registry.Unlabelled name) :
    (∃ changes later, assignLabels used illegal registry = .ok changes later) ∨
      Arena.labelCapacity < registry.arena.labels.size + used.length ∧
        ∃ count later, assignLabels used illegal registry = .error (.arenaFull count) later := by
  cases chosen : registry.chooseLabels used illegal with
  | error error =>
      rcases (review_eq_error_iff valid inside).mp (chooseLabels_eq_error_iff.mp chosen) with
        ⟨previous, next, descent, -⟩ | ⟨-, name, found, -⟩
      · exact absurd ascending (exists_firstDescent_iff.mp ⟨previous, next, descent⟩)
      · have missing : registry.Unlabelled name := by simpa using List.find?_some found
        exact absurd missing (labelled name (List.mem_of_find?_eq_some found))
  | ok progress =>
      have choice := choice_of_chooseLabels valid chosen
      have fewer : progress.changes.length ≤ used.length := by
        have names := congrArg List.length choice.names
        rw [List.length_map] at names
        exact names ▸ List.length_filter_le _ used
      rw [assignLabels_eq, chosen]
      simp only [bind, EStateM.bind]
      rcases installAll_outcome progress.changes progress.registry with
        ⟨later, installed⟩ | ⟨full, count, later, failed⟩
      · rw [installed]
        exact .inl ⟨_, later, rfl⟩
      · rw [choice.follows.labels] at full
        rw [failed]
        exact .inr ⟨by omega, count, later, rfl⟩

end Outcomes

/-! ## The guarantee -/

/-- An assignment of labels to names of the registry is refused for the first descent of the
used names exactly if they are not ascending, and for the smallest used name without a label
exactly if they are ascending and there is such a name. It changes nothing then. In all other
cases it succeeds, unless the label table has no room for a label for each used name. -/
theorem assignment_refused_iff {dialect : Dialect} {registry : Registry} {used : List Name}
    (reachable : Reachable dialect registry)
    (inside : ∀ name ∈ used, registry.contains name = true) (illegal : List Label) :
    (¬Ascending used ↔ ∃ previous next, FirstDescent used previous next ∧
      assignLabels used illegal registry = .error (.unsortedNames previous next) registry) ∧
    ((Ascending used ∧ ∃ name ∈ used, registry.Unlabelled name) ↔
      ∃ name, (name ∈ used ∧ registry.Unlabelled name ∧
          ∀ other ∈ used, registry.Unlabelled other → name ≤ other) ∧
        assignLabels used illegal registry = .error (.missingLabel name) registry) ∧
    ((Ascending used ∧ ∀ name ∈ used, ¬registry.Unlabelled name) ↔
      (∃ changes later, assignLabels used illegal registry = .ok changes later) ∨
        Arena.labelCapacity < registry.arena.labels.size + used.length ∧
          ∃ count later,
            assignLabels used illegal registry = .error (.arenaFull count) later) := by
  have valid := reachable.sound.2.arena
  have unsorted (unordered : ¬Ascending used) :
      ∃ previous next, FirstDescent used previous next ∧
        assignLabels used illegal registry = .error (.unsortedNames previous next) registry := by
    rcases exists_firstDescent_iff.mpr unordered with ⟨previous, next, descent⟩
    exact ⟨previous, next, descent, assignLabels_of_descent valid inside illegal descent⟩
  have missing := assignLabels_of_unlabelled valid inside illegal
  refine ⟨⟨unsorted, fun given => ?_⟩, ⟨fun given => missing given.1 given.2, fun given => ?_⟩,
    ⟨fun given => assignLabels_of_labelled valid inside illegal given.1 given.2, fun given => ?_⟩⟩
  · rcases given with ⟨previous, next, descent, -⟩
    exact exists_firstDescent_iff.mp ⟨previous, next, descent⟩
  · rcases given with ⟨name, ⟨member, unlabelled, -⟩, failed⟩
    refine ⟨?_, name, member, unlabelled⟩
    by_contra unordered
    rcases unsorted unordered with ⟨previous, next, -, otherwise⟩
    exact absurd (failed.symm.trans otherwise) (by simp)
  · have accepted (error : NameError)
        (failed : assignLabels used illegal registry = .error error registry) :
        ∃ count, error = .arenaFull count := by
      rcases given with ⟨changes, later, done⟩ | ⟨-, count, later, full⟩
      · exact absurd (done.symm.trans failed) (by simp)
      · cases full.symm.trans failed
        exact ⟨count, rfl⟩
    have ascending : Ascending used := by
      by_contra unordered
      rcases unsorted unordered with ⟨previous, next, -, failed⟩
      rcases accepted _ failed with ⟨count, same⟩
      exact absurd same (by simp)
    refine ⟨ascending, fun name member unlabelled => ?_⟩
    rcases missing ascending ⟨name, member, unlabelled⟩ with ⟨least, -, failed⟩
    rcases accepted _ failed with ⟨count, same⟩
    exact absurd same (by simp)

/-- A variant of the verbatim base is used, or a name is used twice, or nothing is wrong. -/
theorem assignment_refused_of_variant :
    ∃ registry, Reachable .evm registry ∧
      assignLabels [⟨37⟩, ⟨38⟩] ["a"] registry = .error (.missingLabel ⟨38⟩) registry ∧
      assignLabels [⟨37⟩, ⟨38⟩, ⟨38⟩] ["a"] registry =
        .error (.unsortedNames ⟨38⟩ ⟨38⟩) registry ∧
      ∃ changes later, assignLabels [⟨37⟩, ⟨39⟩] ["a"] registry = .ok changes later := by
  have passed : reaches .evm [.intern "a", .derive ⟨1⟩, .derive ⟨37⟩] (fun registry =>
      decide ((∀ name ∈ [(⟨37⟩ : Name), ⟨38⟩, ⟨39⟩], registry.contains name = true) ∧
        ¬registry.Unlabelled ⟨37⟩ ∧ registry.Unlabelled ⟨38⟩ ∧ ¬registry.Unlabelled ⟨39⟩ ∧
        registry.arena.labels.size + 2 ≤ Arena.labelCapacity)) = true := by
    decide +kernel
  rcases exists_of_reaches passed with ⟨start, built, tested⟩
  rcases of_decide_eq_true tested with ⟨contains, own, variant, other, room⟩
  have reachable := (Reachable.start built).run [.intern "a", .derive ⟨1⟩, .derive ⟨37⟩]
  have outcome (used : List Name) (known : used ⊆ [⟨37⟩, ⟨38⟩, ⟨39⟩]) :=
    assignment_refused_iff reachable (fun name member => contains name (known member)) ["a"]
  refine ⟨_, reachable, ?_, ?_, ?_⟩
  · rcases (outcome [⟨37⟩, ⟨38⟩] (by simp)).2.1.mp
      ⟨by simp [Name.lt_def], ⟨38⟩, by simp, variant⟩ with ⟨name, ⟨member, unlabelled, -⟩, failed⟩
    have same : name = ⟨38⟩ := by
      rcases List.mem_pair.mp member with rfl | same
      · exact absurd unlabelled own
      · exact same
    exact same ▸ failed
  · rcases (outcome [⟨37⟩, ⟨38⟩, ⟨38⟩] (by simp)).1.mp (by simp [Name.lt_def]) with
      ⟨previous, next, descent, failed⟩
    cases (firstDescent?_eq_some_iff.mpr descent).symm.trans
      (by decide : firstDescent? [⟨37⟩, ⟨38⟩, ⟨38⟩] = some (⟨38⟩, ⟨38⟩))
    exact failed
  · have settled : Ascending [⟨37⟩, ⟨39⟩] ∧
        ∀ name ∈ [(⟨37⟩ : Name), ⟨39⟩], ¬(run [.intern "a", .derive ⟨1⟩, .derive ⟨37⟩]
          start).Unlabelled name := by
      simp [Name.lt_def, own, other]
    rcases (outcome [⟨37⟩, ⟨39⟩] (by simp)).2.2.mp settled with done | ⟨full, -⟩
    · exact done
    · exact absurd room (Nat.not_le.mpr full)

end Registry

end NameRegistry
