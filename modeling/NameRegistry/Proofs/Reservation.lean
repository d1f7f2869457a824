import NameRegistry.Proofs.Uniqueness

/-! # Reserving further labels

An assignment is compared with another one from the same registry for which more labels are
illegal. If the first has not given or left any of these to a used name, both walks go side by
side: the same names keep their labels, and every search passes over the same candidates.
-/

namespace NameRegistry.Registry

/-! ## Changes are not taken back -/

private theorem exists_change_of_relabel (progress : Progress) (illegal : List Label) (name : Name)
    (base : Label) :
    ∃ change, change.label = Suffix.free base (progress.taken ++ illegal) ∧
      (progress.relabel illegal name base).changes = progress.changes ++ [change] := by
  unfold Progress.relabel
  simp only
  cases progress.registry.arena.carrier? (Suffix.free base (progress.taken ++ illegal)) with
  | none => exact ⟨.generated name _, rfl, rfl⟩
  | some carrier => exact ⟨.aliased name carrier.1 _, rfl, rfl⟩

private theorem changes_subset_visit (illegal : List Label) (clashing : List Name)
    (progress : Progress) (name : Name) :
    progress.changes ⊆ (Progress.visit illegal clashing progress name).changes := by
  unfold Progress.visit
  split
  · split
    · next base _ =>
        rcases exists_change_of_relabel progress illegal name base with ⟨change, -, changes⟩
        rw [changes]
        exact List.subset_append_left _ _
    · exact List.Subset.refl _
  · exact List.Subset.refl _

private theorem changes_subset_walk (illegal : List Label) (clashing names : List Name)
    (progress : Progress) :
    progress.changes ⊆ (names.foldl (Progress.visit illegal clashing) progress).changes := by
  induction names generalizing progress with
  | nil => exact List.Subset.refl _
  | cons name names induction =>
      exact List.Subset.trans (changes_subset_visit illegal clashing progress name) (induction _)

/-! ## Two walks side by side -/

/-- Two walks have done the same so far. They may list the labels in use differently. -/
private structure Progress.Agrees (left right : Progress) : Prop where
  registry : right.registry = left.registry
  taken : ∀ label, label ∈ right.taken ↔ label ∈ left.taken
  changes : right.changes = left.changes

namespace Progress.Agrees

variable {left right : Progress} {illegal extra wider : List Label} {clashing more : List Name}
  (agrees : left.Agrees right)
  (union : ∀ label, label ∈ wider ↔ label ∈ illegal ∨ label ∈ extra)

include agrees

private theorem relabel {base : Label}
    (same : Suffix.free base (right.taken ++ wider) = Suffix.free base (left.taken ++ illegal))
    (name : Name) : (left.relabel illegal name base).Agrees (right.relabel wider name base) := by
  unfold Progress.relabel
  simp only [same, agrees.registry, agrees.changes]
  cases left.registry.arena.carrier? (Suffix.free base (left.taken ++ illegal)) with
  | none => exact ⟨rfl, by simp [agrees.taken], rfl⟩
  | some carrier => exact ⟨rfl, by simp [agrees.taken], rfl⟩

include union

private theorem free_eq {base : Label} (unhit : Suffix.free base (left.taken ++ illegal) ∉ extra) :
    Suffix.free base (right.taken ++ wider) = Suffix.free base (left.taken ++ illegal) := by
  have free := Suffix.free_not_mem base (left.taken ++ illegal)
  apply Suffix.free_eq_of_subset
  · intro label member
    rw [List.mem_append, agrees.taken, union]
    rcases List.mem_append.mp member with used | bad
    · exact .inl used
    · exact .inr (.inl bad)
  · rw [List.mem_append, agrees.taken, union]
    rintro (used | bad | reserved)
    · exact free (List.mem_append_left _ used)
    · exact free (List.mem_append_right _ bad)
    · exact unhit reserved

private theorem visit {name : Name} (sameClash : name ∈ more ↔ name ∈ clashing)
    (unhit : ∀ change ∈ (Progress.visit illegal clashing left name).changes,
      change.label ∉ extra) :
    (Progress.visit illegal clashing left name).Agrees
      (Progress.visit wider more right name) := by
  have sameNeed : right.needsLabel more name = left.needsLabel clashing name := by
    simp only [Progress.needsLabel, agrees.registry, sameClash]
  unfold Progress.visit at unhit ⊢
  rw [sameNeed, agrees.registry]
  split
  · next needs =>
      rw [if_pos needs] at unhit
      split
      · next base based =>
          simp only [based] at unhit
          rcases exists_change_of_relabel left illegal name base with ⟨change, chosen, changes⟩
          have notReserved := unhit change (by simp [changes])
          rw [chosen] at notReserved
          exact agrees.relabel (agrees.free_eq union notReserved) name
      · exact agrees
  · exact agrees

private theorem walk {names : List Name} (sameClash : ∀ name ∈ names, name ∈ more ↔ name ∈ clashing)
    (unhit : ∀ change ∈ (names.foldl (Progress.visit illegal clashing) left).changes,
      change.label ∉ extra) :
    (names.foldl (Progress.visit illegal clashing) left).Agrees
      (names.foldl (Progress.visit wider more) right) := by
  induction names generalizing left right with
  | nil => exact agrees
  | cons name names induction =>
      -- What one visit gives stays among the changes of the whole walk, so it is not hit either.
      have next := agrees.visit union (sameClash name List.mem_cons_self) fun change member =>
        unhit change (changes_subset_walk illegal clashing names _ member)
      exact induction next (fun other member => sameClash other (List.mem_cons_of_mem name member))
        unhit

end Progress.Agrees

/-! ## Names that keep their labels -/

section Reserved

variable {registry later : Registry} {used : List Name} {illegal extra wider : List Label}
  {changes : List Relabelling}
  (union : ∀ label, label ∈ wider ↔ label ∈ illegal ∨ label ∈ extra)

include union

private theorem clashes_of_clashes_wider {name : Name}
    (clash : registry.clashes used wider name = true) :
    registry.clashes used illegal name = true ∨
      ∃ label ∈ extra, registry.label? name = some label := by
  rcases clashes_iff.mp clash with ⟨label, labelled, bad | other⟩
  · rcases (union label).mp bad with before | reserved
    · exact .inl (clashes_iff.mpr ⟨label, labelled, .inl before⟩)
    · exact .inr ⟨label, reserved, labelled⟩
  · exact .inl (clashes_iff.mpr ⟨label, labelled, .inr other⟩)

private theorem clashes_wider_of_clashes {name : Name}
    (clash : registry.clashes used illegal name = true) :
    registry.clashes used wider name = true := by
  rcases clashes_iff.mp clash with ⟨label, labelled, bad | other⟩
  · exact clashes_iff.mpr ⟨label, labelled, .inl ((union label).mpr (.inl bad))⟩
  · exact clashes_iff.mpr ⟨label, labelled, .inr other⟩

private theorem Assigned.clashing_iff (assigned : Assigned registry used illegal changes later)
    (sound : registry.Sound) {review wide : Review}
    (reviewed : Reviewed registry illegal used review)
    (wideReviewed : Reviewed registry wider used wide)
    (unhit : ∀ name ∈ used, registry.boundaries.endBuiltins ≤ name → ∀ label ∈ extra,
      later.label? name ≠ some label)
    {name : Name} (member : name ∈ used) (beyond : registry.boundaries.endBuiltins ≤ name) :
    name ∈ wide.clashing ↔ name ∈ review.clashing := by
  rw [wideReviewed.clashing, reviewed.clashing]
  constructor
  · rintro ⟨-, owned, clash⟩
    refine ⟨member, owned, ?_⟩
    rcases clashes_of_clashes_wider union clash with before | ⟨label, reserved, labelled⟩
    · exact before
    · -- The name keeps the label that only the further ones forbid, which would then be hit.
      by_contra fits
      have kept : name ∉ registry.targets used illegal := by
        simp [mem_targets, needsLabel, owned, fits]
      have still := assigned.label?_kept sound (assigned.inside name member) kept
      exact unhit name member beyond label reserved (still.trans labelled)
  · rintro ⟨-, owned, clash⟩
    exact ⟨member, owned, clashes_wider_of_clashes union clash⟩

/-! ## The whole assignment -/

private theorem chooseLabels_agrees (sound : registry.Sound) {progress : Progress}
    (chosen : registry.chooseLabels used illegal = .ok progress)
    (assigned : Assigned registry used illegal progress.changes later)
    (unhit : ∀ name ∈ used, registry.boundaries.endBuiltins ≤ name → ∀ label ∈ extra,
      later.label? name ≠ some label) :
    ∃ wide, registry.chooseLabels used wider = .ok wide ∧ progress.Agrees wide := by
  unfold chooseLabels at chosen ⊢
  cases reviewEq : registry.review used illegal with
  | error error =>
      rw [reviewEq] at chosen
      exact absurd chosen (by simp [bind, Except.bind])
  | ok review =>
      rw [reviewEq] at chosen
      cases chosen
      rcases reviewed_of_review reviewEq with ⟨ascending, reviewed⟩
      rcases @exists_review registry used wider ascending reviewed.labelled with ⟨wide, wideEq⟩
      have wideReviewed := (reviewed_of_review wideEq).2
      have visited := commonAscending_openNames ascending assigned.inside
      rw [wideEq]
      have start : Progress.Agrees { registry, taken := review.taken }
          { registry, taken := wide.taken } :=
        ⟨rfl, fun label => by rw [wideReviewed.taken, reviewed.taken], rfl⟩
      refine ⟨_, rfl, start.walk union ?_ ?_⟩
      · intro name listed
        rw [visited, List.mem_filter, decide_eq_true_eq] at listed
        exact assigned.clashing_iff union sound reviewed wideReviewed unhit listed.1 listed.2
      · intro change member reserved
        have target : change.name ∈ registry.targets used illegal :=
          assigned.names ▸ List.mem_map_of_mem member
        rcases mem_targets.mp target with ⟨wasUsed, beyond, -⟩
        exact unhit change.name wasUsed beyond change.label reserved (assigned.label?_given member)

private theorem assignLabels_wider (sound : registry.Sound)
    (done : assignLabels used illegal registry = .ok changes later)
    (unhit : ∀ name ∈ used, registry.boundaries.endBuiltins ≤ name → ∀ label ∈ extra,
      later.label? name ≠ some label) :
    assignLabels used wider registry = .ok changes later := by
  have assigned := assigned_of_assignLabels sound.arena done
  rw [assignLabels_eq] at done ⊢
  cases chosen : registry.chooseLabels used illegal with
  | error error =>
      rw [chosen] at done
      exact absurd done (by simp)
  | ok progress =>
      rw [chosen] at done
      rcases @sequence_eq_ok _ _ (progress.changes.forM install) _ _ _ _ done with
        ⟨_, middle, installed, finished⟩
      cases finished
      rcases chooseLabels_agrees union sound chosen assigned unhit with ⟨wide, wideEq, agrees⟩
      simp only [wideEq, agrees.changes, agrees.registry]
      exact done

end Reserved

/-- Further illegal labels leave an assignment as it is, with all that it changes, exactly if no
used name after the built-ins has got one of them. -/
theorem final_labels_same_iff_unhit {dialect : Dialect} {registry later : Registry}
    {used : List Name} {illegal extra wider : List Label} {changes : List Relabelling}
    (reachable : Reachable dialect registry)
    (done : assignLabels used illegal registry = .ok changes later)
    (union : ∀ label, label ∈ wider ↔ label ∈ illegal ∨ label ∈ extra) :
    assignLabels used wider registry = .ok changes later ↔
      ∀ name ∈ used, registry.boundaries.endBuiltins ≤ name → ∀ label ∈ extra,
        later.label? name ≠ some label := by
  have sound := reachable.sound.2
  constructor
  · intro again name member beyond label reserved labelled
    have assigned := assigned_of_assignLabels sound.arena again
    rcases assigned.exists_label sound member beyond with ⟨known, found, legal, -⟩
    cases labelled.symm.trans found
    exact legal ((union label).mpr (.inr reserved))
  · exact assignLabels_wider union sound done

/-- The label that a relabelled name had, a built-in's, an unused name's and a candidate that
no search comes to may be reserved, but not the label that a name keeps. -/
theorem final_labels_same_of_reserved_words :
    ∃ registry changes later, Reachable .evm registry ∧
      assignLabels [⟨37⟩, ⟨38⟩, ⟨39⟩] ["a"] registry = .ok changes later ∧
      assignLabels [⟨37⟩, ⟨38⟩, ⟨39⟩] ["a", "add", "c", "a_3"] registry = .ok changes later ∧
      assignLabels [⟨37⟩, ⟨38⟩, ⟨39⟩] ["a", "b"] registry ≠ .ok changes later := by
  have passed : scenario .evm [.intern "a", .intern "b", .derive ⟨37⟩, .intern "c"]
      [⟨37⟩, ⟨38⟩, ⟨39⟩] ["a"]
      (fun registry _ later =>
        ([⟨37⟩, ⟨38⟩, ⟨39⟩] : List Name).all (fun name =>
          ["a", "add", "c", "a_3"].all fun label => later.label? name ≠ some label) &&
        registry.boundaries.endBuiltins ≤ ⟨38⟩ && later.label? ⟨38⟩ = some "b") = true := by
    decide +kernel
  rcases exists_of_scenario passed with ⟨registry, changes, later, reachable, done, tested⟩
  simp only [Bool.and_eq_true, List.all_eq_true, decide_eq_true_eq] at tested
  rcases tested with ⟨⟨unhit, beyond⟩, kept⟩
  refine ⟨registry, changes, later, reachable, done, ?_, ?_⟩
  · have union : ∀ label, label ∈ ["a", "add", "c", "a_3"] ↔
        label ∈ ["a"] ∨ label ∈ ["a", "add", "c", "a_3"] := by simp
    apply (final_labels_same_iff_unhit reachable done union).mpr
    exact fun name member _ => unhit name member
  · have union : ∀ label, label ∈ ["a", "b"] ↔ label ∈ ["a"] ∨ label ∈ ["b"] := by simp
    intro same
    have noneHit := (final_labels_same_iff_unhit reachable done union).mp same
    exact noneHit ⟨38⟩ (by decide) beyond "b" (by simp) kept

end NameRegistry.Registry
