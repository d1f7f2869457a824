import Mathlib.Data.List.Find
import NameRegistry.Proofs.Layout
import NameRegistry.Proofs.Lookup

/-! # Interning a label

A label that stands for no verbatim built-in is looked for among the built-ins or by the
lookup of labels, as the dialect has it. Either way a name that carries the label is found
if there is one, and otherwise the label gets a name of its own.
-/

namespace NameRegistry.Registry

/-! ## Where a label is looked for -/

namespace LaidOut

variable {registry : Registry} (laidOut : registry.LaidOut)
  (unambiguous : registry.dialect.Unambiguous) {label : Label}

include laidOut unambiguous

private theorem exists_findBuiltin? (ordinary : registry.dialect.Ordinary label)
    (builtin : (registry.dialect.builtin? label).isSome = true) :
    ∃ name, registry.findBuiltin? label = some name := by
  rcases Option.isSome_iff_exists.mp builtin with ⟨definition, defined⟩
  have enumerated : label ∈ registry.dialect.builtinLabels := by
    rcases unambiguous.listed label definition defined with listed | ⟨arity, read⟩
    · exact listed
    · have unread := ordinary definition defined
      rw [Builtin.isVerbatim, unambiguous.named label definition defined, read] at unread
      exact absurd unread (by simp)
  have nonempty : label ≠ "" := fun empty => unambiguous.labelled (empty ▸ enumerated)
  rcases laidOut.exists_builtinName enumerated nonempty with ⟨name, member, carried⟩
  exact exists_findBuiltin?_of_mem member carried

theorem exists_present? (valid : registry.arena.Valid)
    (ordinary : registry.dialect.Ordinary label) {carrier : Name}
    (carried : registry.arena.label? carrier = some label) :
    ∃ name, registry.present? label = some name := by
  unfold present?
  split
  · next builtin => exact laidOut.exists_findBuiltin? unambiguous ordinary builtin
  · cases found : registry.find? label with
    | some name => exact ⟨name, rfl⟩
    | none => exact absurd carried ((find?_eq_none_iff valid).mp found carrier)

end LaidOut

namespace Regular

variable {registry : Registry} (regular : registry.Regular) {label : Label}

include regular

theorem carries_of_present? {name : Name} (present : registry.present? label = some name) :
    registry.Carries name label := by
  have valid := regular.sound.arena
  unfold present? at present
  split at present
  · have labelled : registry.label? name = some label := by
      simpa using List.find?_some present
    exact ⟨regular.separated.fixed name (findBuiltin?_lt present).2, labelled⟩
  · exact (carries_iff valid).mpr (label?_of_find? present)

private theorem exists_findBuiltin? (ordinary : registry.dialect.Ordinary label)
    (builtin : (registry.dialect.builtin? label).isSome = true) :
    ∃ name, registry.findBuiltin? label = some name :=
  regular.laidOut.exists_findBuiltin? regular.unambiguous ordinary builtin

private theorem exists_present? (ordinary : registry.dialect.Ordinary label) {carrier : Name}
    (carries : registry.Carries carrier label) : ∃ name, registry.present? label = some name :=
  have valid := regular.sound.arena
  have carried := (carries_iff valid).mp carries
  regular.laidOut.exists_present? regular.unambiguous valid ordinary carried

end Regular

/-! ## What interning does -/

theorem intern_present {registry : Registry} {label : Label} {name : Name}
    (ordinary : registry.dialect.Ordinary label) (present : registry.present? label = some name) :
    intern label registry = .ok name registry := by
  rw [intern_ordinary ordinary, present]

private theorem Regular.intern_cases {registry : Registry} (regular : registry.Regular)
    {label : Label} (ordinary : registry.dialect.Ordinary label) :
    (∃ name, registry.Carries name label ∧ intern label registry = .ok name registry) ∨
      (∀ name, ¬registry.Carries name label) ∧ registry.present? label = none ∧
        (intern label registry = .ok registry.arena.next (registry.defined label) ∨
          (Arena.capacity ≤ registry.size ∨
              Arena.labelCapacity ≤ registry.arena.labels.size) ∧
            ∃ count left, (left = registry ∨ left = registry.interned label) ∧
              intern label registry = .error (.arenaFull count) left) := by
  cases present : registry.present? label with
  | some name =>
      exact .inl ⟨name, regular.carries_of_present? present, intern_present ordinary present⟩
  | none =>
      refine .inr ⟨fun name carries => ?_, rfl, ?_⟩
      · rcases regular.exists_present? ordinary carries with ⟨found, isPresent⟩
        exact absurd (present.symm.trans isPresent) (by simp)
      · rw [intern_ordinary ordinary, present]
        exact onArena_define_cases label registry

/-- What interning a label for a name has led to. -/
structure Interned (registry : Registry) (label : Label) (name : Name) (later : Registry) :
    Prop where
  carries : later.Carries name label
  found : ∀ carrier, registry.Carries carrier label → later = registry
  appended : (∀ carrier, ¬registry.Carries carrier label) →
    name = registry.arena.next ∧ later.size = registry.size + 1 ∧ registry.Extension later
  repeated : intern label later = .ok name later
  /-- As long as the name has its label, which only an assignment can change, no other label
  has this name. -/
  apart : ∀ commands other second final,
    (∀ command ∈ commands, command.appends = true) ∨
      (run commands later).label? name = some label →
    registry.dialect.Ordinary other → other ≠ label →
    intern other (run commands later) = .ok second final → second ≠ name

private theorem intern_ne {dialect : Dialect} {registry : Registry} {name : Name} {label : Label}
    (unambiguous : dialect.Unambiguous) (reachable : Reachable dialect registry)
    (carries : registry.Carries name label) {commands : List Command}
    (kept : (∀ command ∈ commands, command.appends = true) ∨
      (run commands registry).label? name = some label)
    {other : Label} (ordinary : dialect.Ordinary other) (different : other ≠ label)
    {second : Name} {final : Registry}
    (done : intern other (run commands registry) = .ok second final) : second ≠ name := by
  intro same
  subst same
  have sound := reachable.sound.2
  have reached := reachable.run commands
  rw [← reached.sound.1] at ordinary
  rcases (reached.regular unambiguous).intern_cases ordinary with
    ⟨carrier, otherCarries, found⟩ | ⟨-, -, appended | ⟨-, count, left, -, failed⟩⟩
  · cases found.symm.trans done
    have labelled : (run commands registry).label? second = some label := by
      rcases kept with appends | same
      · exact ((extension_run appends sound).carries sound carries).2
      · exact same
    exact different (Option.some.inj (otherCarries.2.symm.trans labelled))
  · cases appended.symm.trans done
    rcases carries.1 with ⟨position, defined⟩
    have inside := (Continuation.run commands sound).contains (Arena.contains_of_state? defined)
    exact Arena.ne_next inside rfl
  · exact absurd (failed.symm.trans done) (by simp)

private theorem interned_present {dialect : Dialect} {registry : Registry} {label : Label}
    {name : Name} (unambiguous : dialect.Unambiguous) (reachable : Reachable dialect registry)
    (carries : registry.Carries name label)
    (present : intern label registry = .ok name registry) :
    registry.Interned label name registry where
  carries := carries
  found := fun _ _ => rfl
  appended := fun uncarried => absurd carries (uncarried name)
  repeated := present
  apart := fun _ _ _ _ kept ordinary different done =>
    intern_ne unambiguous reachable carries kept (reachable.sound.1 ▸ ordinary) different done

private theorem interned_new {dialect : Dialect} {registry : Registry} {label : Label}
    (unambiguous : dialect.Unambiguous) (reachable : Reachable dialect registry)
    (ordinary : registry.dialect.Ordinary label)
    (uncarried : ∀ name, ¬registry.Carries name label) (absent : registry.present? label = none)
    (appended : intern label registry = .ok registry.arena.next (registry.defined label)) :
    registry.Interned label registry.arena.next (registry.defined label) := by
  have sound := reachable.sound.2
  have growth := Growth.defined label ordinary absent
  have later := reachable.interned appended
  have own {name : Name} := @carries_defined_iff registry label label name sound.arena
    later.sound.2.arena
  have carries : (registry.defined label).Carries registry.arena.next label :=
    own.mpr (by rw [if_pos rfl])
  have repeated :
      intern label (registry.defined label) = .ok registry.arena.next (registry.defined label) := by
    rcases (later.regular unambiguous).intern_cases ordinary with
      ⟨name, again, found⟩ | ⟨none, -⟩
    · have alone := own.mp again
      split at alone
      · next same => exact same ▸ found
      · exact absurd alone (uncarried name)
    · exact absurd carries (none _)
  exact
    { carries := carries
      found := fun carrier before => absurd before (uncarried carrier)
      appended := fun _ =>
        ⟨rfl, Arena.size_append (registry.arena.withLabel label) _, growth.extension sound⟩
      repeated := repeated
      apart := fun _ _ _ _ kept other different done =>
        intern_ne unambiguous later carries kept (reachable.sound.1 ▸ other) different done }

private theorem interned_of_intern {dialect : Dialect} {registry later : Registry} {label : Label}
    {name : Name} (unambiguous : dialect.Unambiguous) (reachable : Reachable dialect registry)
    (ordinary : registry.dialect.Ordinary label)
    (done : intern label registry = .ok name later) : registry.Interned label name later := by
  rcases (reachable.regular unambiguous).intern_cases ordinary with
    ⟨known, carries, present⟩ | ⟨uncarried, absent, appended | ⟨-, count, left, -, failed⟩⟩
  · cases present.symm.trans done
    exact interned_present unambiguous reachable carries present
  · cases appended.symm.trans done
    exact interned_new unambiguous reachable ordinary uncarried absent appended
  · exact absurd (failed.symm.trans done) (by simp)

/-- Interning a label that stands for no verbatim built-in answers a defined name that has
the label, unless there is no room for a new one. -/
theorem intern_correct {dialect : Dialect} {registry : Registry} {label : Label}
    (unambiguous : dialect.Unambiguous) (reachable : Reachable dialect registry)
    (ordinary : dialect.Ordinary label) :
    (∃ name later, intern label registry = .ok name later ∧
      registry.Interned label name later) ∨
    (∀ carrier, ¬registry.Carries carrier label) ∧
      (Arena.capacity ≤ registry.size ∨ Arena.labelCapacity ≤ registry.arena.labels.size) ∧
      ∃ count left, (left = registry ∨ left = registry.interned label) ∧
        intern label registry = .error (.arenaFull count) left := by
  rw [← reachable.sound.1] at ordinary
  have interned {name : Name} {later : Registry} :=
    @interned_of_intern dialect registry later label name unambiguous reachable ordinary
  rcases (reachable.regular unambiguous).intern_cases ordinary with
    ⟨name, -, present⟩ | ⟨uncarried, -, appended | failed⟩
  · exact .inl ⟨name, registry, present, interned present⟩
  · exact .inl ⟨_, _, appended, interned appended⟩
  · exact .inr ⟨uncarried, failed⟩

/-- A name has been moved away from its label, and the label that is left in the table is
interned again. -/
theorem intern_orphaned_label :
    ∃ registry name later, Reachable .evm registry ∧
      (registry.arena.labels.find? "a").isSome = true ∧
      (∀ carrier, ¬registry.Carries carrier "a") ∧
      intern "a" registry = .ok name later ∧ registry.Interned "a" name later := by
  have passed : reaches .evm [.intern "a", .assignLabels [⟨37⟩] ["a"]]
      (fun registry => decide ((registry.arena.labels.find? "a").isSome = true ∧
        registry.find? "a" = none ∧ succeeds (intern "a") registry = true)) = true := by
    decide +kernel
  rcases exists_of_reaches passed with ⟨start, built, tested⟩
  rcases of_decide_eq_true tested with ⟨kept, absent, succeeded⟩
  have reachable := (Reachable.start built).run [.intern "a", .assignLabels [⟨37⟩] ["a"]]
  have valid := reachable.sound.2.arena
  have uncarried (carrier : Name) := (find?_eq_none_iff valid).mp absent carrier
  have ordinary : Dialect.evm.Ordinary "a" :=
    Dialect.wellFormed_evm.toUnambiguous.ordinary_of_unread (by decide +kernel)
  rcases intern_correct Dialect.wellFormed_evm.toUnambiguous reachable ordinary with
    ⟨name, later, done, interned⟩ | ⟨-, -, count, left, -, failed⟩
  · exact ⟨_, name, later, reachable, kept,
      fun carrier carries => uncarried carrier ((carries_iff valid).mp carries), done, interned⟩
  · rcases exists_of_succeeds succeeded with ⟨name, later, done⟩
    exact absurd (failed.symm.trans done) (by simp)

/-! ## Interning a label again -/

private theorem present?_of_intern {registry later : Registry} {label : Label} {name : Name}
    (ordinary : registry.dialect.Ordinary label)
    (present : ∃ known, registry.present? label = some known)
    (done : intern label registry = .ok name later) :
    registry.present? label = some name ∧ later = registry := by
  rcases present with ⟨known, found⟩
  cases (intern_present ordinary found).symm.trans done
  exact ⟨found, rfl⟩

theorem Continuation.findBuiltin?_eq {registry later : Registry}
    (continuation : registry.Continuation later) (sound : registry.Sound) (label : Label) :
    later.findBuiltin? label = registry.findBuiltin? label := by
  have names : later.builtinNames = registry.builtinNames := by
    simp only [builtinNames, continuation.boundaries]
  rw [findBuiltin?, findBuiltin?, names]
  apply List.find?_congr
  intro name member
  rw [continuation.label?_eq sound (mem_builtinNames.mp member).2]

private theorem present?_eq_some_iff {registry : Registry} (valid : registry.arena.Valid)
    {label : Label} (unlisted : ¬(registry.dialect.builtin? label).isSome = true) {name : Name}
    {position : LabelIndex} (defined : registry.state? name = some (.defined position))
    (kept : registry.arena.labels.get? position = some label) :
    registry.present? label = some name ↔ registry.arena.Preferred position name := by
  rw [present?, if_neg unlisted, find?_eq_some_iff valid kept]
  exact and_iff_right defined

namespace Regular

variable {registry middle final : Registry} {label : Label} {name : Name}
  {position : LabelIndex} (regular : registry.Regular)

include regular

private theorem present?_again_of_builtin (ordinary : registry.dialect.Ordinary label)
    (builtin : (registry.dialect.builtin? label).isSome = true)
    (done : intern label registry = .ok name middle) (continuation : middle.Continuation final) :
    final.present? label = some name := by
  have first : registry.present? label = registry.findBuiltin? label := if_pos builtin
  rcases present?_of_intern ordinary (first ▸ regular.exists_findBuiltin? ordinary builtin) done
    with ⟨present, rfl⟩
  rw [present?, continuation.dialect, if_pos builtin,
    continuation.findBuiltin?_eq regular.sound, ← first, present]

private theorem preferred_again (unlisted : ¬(registry.dialect.builtin? label).isSome = true)
    (ordinary : registry.dialect.Ordinary label) (carries : registry.Carries name label)
    (done : intern label registry = .ok name registry)
    (continuation : registry.Continuation final)
    (kept : final.arena.labels.get? position = some label)
    (fewer : ∀ carrier, final.Carries carrier label → registry.Carries carrier label) :
    final.arena.Preferred position name := by
  have valid := regular.sound.arena
  have finalValid := continuation.sound.arena
  have labelled := (carries_iff valid).mp carries
  rcases Arena.label?_eq_some_iff.mp labelled with ⟨place, defined, placeKept⟩
  have samePlace : place = position :=
    finalValid.labels.unique (continuation.labels place label placeKept) kept
  subst samePlace
  have present := (present?_of_intern ordinary (regular.exists_present? ordinary carries) done).1
  have preferred := (present?_eq_some_iff valid unlisted defined placeKept).mp present
  refine preferred.mono fun other otherDefined => ?_
  have otherCarries := fewer other ((carries_iff finalValid).mpr
    (Arena.label?_eq_some_iff.mpr ⟨place, otherDefined, kept⟩))
  exact (valid.state?_eq_of_label? ((carries_iff valid).mp otherCarries) labelled).trans defined

end Regular

/-- A label that is interned again while the first name still has it answers a name in the
same state. It is the first name exactly if the label is a built-in's or the lookup prefers
that name, and so it is if no other name has come to share the label in the meantime. -/
theorem intern_again_iff {dialect : Dialect} {registry middle : Registry} {label : Label}
    {name : Name} {commands : List Command} {position : LabelIndex}
    (unambiguous : dialect.Unambiguous) (reachable : Reachable dialect registry)
    (done : intern label registry = .ok name middle)
    (defined : (run commands middle).state? name = some (.defined position))
    (labelled : (run commands middle).label? name = some label) :
    ∃ again, intern label (run commands middle) = .ok again (run commands middle) ∧
      (run commands middle).state? again = some (.defined position) ∧
      (again = name ↔ (dialect.builtin? label).isSome = true ∨
        (run commands middle).arena.Preferred position name) ∧
      ((∀ carrier, (run commands middle).Carries carrier label → middle.Carries carrier label) →
        again = name) := by
  have later := reachable.interned done
  have reached := later.run commands
  have final := reached.regular unambiguous
  have continuation := Continuation.run commands later.sound.2
  have valid := final.sound.arena
  have carries : (run commands middle).Carries name label := ⟨⟨position, defined⟩, labelled⟩
  have carried := (carries_iff valid).mp carries
  have kept := (Arena.label?_of_defined defined).symm.trans carried
  have finalOrdinary := final.separated.carried name label carried
  have ordinary : dialect.Ordinary label := reached.sound.1 ▸ finalOrdinary
  rcases final.exists_present? finalOrdinary carries with ⟨again, present⟩
  have againCarried := (carries_iff valid).mp (final.carries_of_present? present)
  refine ⟨again, intern_present finalOrdinary present,
    (valid.state?_eq_of_label? againCarried carried).trans defined, ?_⟩
  by_cases builtin : (dialect.builtin? label).isSome = true
  · have found : (run commands middle).present? label = some name := by
      apply (reachable.regular unambiguous).present?_again_of_builtin _ _ done continuation
      · rwa [reachable.sound.1]
      · rwa [reachable.sound.1]
    cases present.symm.trans found
    exact ⟨⟨fun _ => .inl builtin, fun _ => rfl⟩, fun _ => rfl⟩
  · have unlisted : ¬((run commands middle).dialect.builtin? label).isSome = true := by
      rwa [reached.sound.1]
    have preferred : again = name ↔ (run commands middle).arena.Preferred position name := by
      rw [← present?_eq_some_iff valid unlisted defined kept, present, Option.some.injEq]
    refine ⟨preferred.trans (or_iff_right builtin).symm, fun fewer => preferred.mpr ?_⟩
    have interned := interned_of_intern unambiguous reachable (by rwa [reachable.sound.1]) done
    apply (later.regular unambiguous).preferred_again _ _ interned.carries interned.repeated
      continuation kept fewer
    · rwa [later.sound.1]
    · rwa [later.sound.1]

/-- The name that was interned is not at the position of its label, so a variant that comes to
share the label is preferred to it. -/
theorem intern_again_of_shared_label :
    ∃ registry middle, Reachable .evm registry ∧ intern "b" registry = .ok ⟨39⟩ middle ∧
      (run [.derive ⟨39⟩, .assignLabels [⟨40⟩] []] middle).label? ⟨39⟩ = some "b" ∧
      ∃ again, intern "b" (run [.derive ⟨39⟩, .assignLabels [⟨40⟩] []] middle) =
          .ok again (run [.derive ⟨39⟩, .assignLabels [⟨40⟩] []] middle) ∧ again ≠ ⟨39⟩ := by
  have passed : reaches .evm [.intern "a", .derive ⟨37⟩] (fun registry =>
      match intern "b" registry with
      | .error .. => false
      | .ok name middle =>
          let final := run [.derive ⟨39⟩, .assignLabels [⟨40⟩] []] middle
          decide (name = ⟨39⟩ ∧ final.state? ⟨39⟩ = some (.defined ⟨38⟩) ∧
            final.label? ⟨39⟩ = some "b" ∧
            final.state? ⟨40⟩ = some (.defined ⟨38⟩))) = true := by
    decide +kernel
  rcases exists_of_reaches passed with ⟨start, built, tested⟩
  have reachable := (Reachable.start built).run [.intern "a", .derive ⟨37⟩]
  dsimp only at tested
  split at tested
  · exact absurd tested (by simp)
  · next name middle done =>
      rcases of_decide_eq_true tested with ⟨rfl, defined, labelled, shared⟩
      rcases intern_again_iff Dialect.wellFormed_evm.toUnambiguous reachable done defined labelled
        with ⟨again, answered, -, same, -⟩
      refine ⟨_, middle, reachable, done, labelled, again, answered, fun equal => ?_⟩
      rcases same.mp equal with builtin | home | ⟨-, last⟩
      · exact absurd builtin (by decide +kernel)
      · exact absurd home (by decide)
      · exact last ⟨40⟩ (by decide) shared

end NameRegistry.Registry
