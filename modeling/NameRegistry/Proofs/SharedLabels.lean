import NameRegistry.Proofs.Greedy
import NameRegistry.Proofs.SetupLabels

/-! # Labels that names share

A label that a name carries is interned again without a new name, unless it is the empty one
and a built-in has it: that built-in is left out of the range of built-ins, where its label is
looked for. Apart from what the setup leaves, names share a label only for this reason or
because an assignment has made one of them an alias.
-/

namespace NameRegistry.Registry

/-! ## Interning a label -/

theorem label?_after_derive (name other : Name) (registry : Registry) :
    (after (derive name) registry).arena.label? other = registry.arena.label? other := by
  unfold after
  rcases derive_cases name registry with ⟨base, -, done⟩ | ⟨error, -, failed⟩
  · rw [done]
    exact label?_derived registry other base
  · rw [failed]

theorem label?_after_internVerbatim? (arity : Arity) (name : Name) (registry : Registry) :
    (after (internVerbatim? arity) registry).arena.label? name = registry.arena.label? name := by
  have unmapped (definition : Builtin) :=
    after_map some (verbatimInstance definition) registry
  unfold after at unmapped ⊢
  rw [internVerbatim?_eq]
  cases registry.dialect.verbatim? arity with
  | none => rfl
  | some definition =>
      rw [unmapped]
      exact label?_after_verbatimInstance definition name registry

theorem label?_after_intern_cases (text : Label) {registry : Registry}
    (valid : registry.arena.Valid) :
    (∀ name, (after (intern text) registry).arena.label? name = registry.arena.label? name) ∨
      registry.dialect.Ordinary text ∧ registry.present? text = none ∧
        intern text registry = .ok registry.arena.next (registry.defined text) := by
  rcases registry.dialect.ordinary_or_verbatim text with ordinary | ⟨definition, found, verbatim⟩
  · unfold after
    rw [intern_ordinary ordinary]
    cases present : registry.present? text with
    | some known => exact .inl fun _ => rfl
    | none =>
        simp only
        rcases onArena_define_cases text registry with defined | ⟨-, count, left, same, failed⟩
        · exact .inr ⟨ordinary, trivial, defined⟩
        · rw [failed]
          rcases same with rfl | rfl
          · exact .inl fun _ => rfl
          · exact .inl fun name => label?_interned registry name valid text
  · have instead := label?_after_verbatimInstance definition
    unfold after at instead ⊢
    rw [intern_verbatim found verbatim]
    exact .inl fun name => instead name registry

namespace Listed

variable {registry later : Registry} (listed : registry.Listed)

include listed

private theorem continued (continuation : registry.Continuation later) (sound : registry.Sound) :
    later.Listed where
  tabular := continuation.dialect ▸ listed.tabular
  found := by
    intro label enumerated nonempty ordinary
    rw [continuation.dialect] at enumerated ordinary
    rw [continuation.findBuiltin?_eq sound]
    exact listed.found label enumerated nonempty ordinary
  unnamed := (continuation.findBuiltin?_eq sound "").trans listed.unnamed

private theorem predefined {predefined : PredefinedNames}
    (same : predefined.verbatim = registry.predefined.verbatim) :
    { registry with predefined }.Listed where
  tabular := listed.tabular
  found := by
    intro label enumerated nonempty ordinary
    rw [findBuiltin?_predefined same]
    exact listed.found label enumerated nonempty ordinary
  unnamed := (findBuiltin?_predefined same "").trans listed.unnamed

private theorem eq_empty_of_absent (valid : registry.arena.Valid) {text : Label}
    (ordinary : registry.dialect.Ordinary text) (absent : registry.present? text = none)
    {name : Name} (carried : registry.arena.label? name = some text) :
    text = "" ∧ "" ∈ registry.dialect.builtinLabels := by
  unfold present? at absent
  split at absent
  · next builtin =>
      have enumerated := (listed.tabular.isSome_builtin?_iff ordinary).mp builtin
      by_cases empty : text = ""
      · exact ⟨empty, empty ▸ enumerated⟩
      · rcases listed.found text enumerated empty ordinary with ⟨found, present⟩
        exact absurd (absent.symm.trans present) (by simp)
  · exact absurd carried ((find?_eq_none_iff valid).mp absent name)

private theorem present?_empty (enumerated : "" ∈ registry.dialect.builtinLabels) :
    registry.present? "" = none := by
  have builtin :=
    (listed.tabular.isSome_builtin?_iff listed.tabular.ordinary_empty).mpr enumerated
  rw [present?, if_pos builtin]
  exact listed.unnamed

private theorem shares_of_shares_intern (valid : registry.arena.Valid) {text label : Label}
    {left right : Name} (shares : (after (intern text) registry).arena.Shares left right label) :
    registry.arena.Shares left right label ∨
      label = "" ∧ text = "" ∧ "" ∈ registry.dialect.builtinLabels ∧
        succeeds (intern "") registry = true := by
  rcases label?_after_intern_cases text valid with same | ⟨ordinary, absent, done⟩
  · rw [Arena.shares_iff, same, same] at shares
    exact .inl (Arena.shares_iff.mpr shares)
  · rw [after_of_ok done] at shares
    rcases shares_of_shares_defined valid shares with before | ⟨rfl, name, carried⟩
    · exact .inl before
    · rcases listed.eq_empty_of_absent valid ordinary absent carried with ⟨rfl, enumerated⟩
      exact .inr ⟨rfl, rfl, enumerated, by rw [succeeds, done]⟩

private theorem shared_intern_empty (consistent : registry.Consistent)
    (enumerated : "" ∈ registry.dialect.builtinLabels)
    (succeeded : succeeds (intern "") registry = true) :
    (after (intern "") registry).arena.Shared "" := by
  have step := intern_ordinary listed.tabular.ordinary_empty
  rw [listed.present?_empty enumerated] at step
  rcases onArena_define_cases "" registry with defined | ⟨-, count, left, -, failed⟩
  · rw [after_of_ok (step.trans defined), shared_defined_iff consistent.arena]
    exact .inr ⟨rfl, .empty, consistent.root⟩
  · rw [succeeds, step.trans failed] at succeeded
    exact absurd succeeded (by simp)

private theorem shares_of_shares_perform (valid : registry.arena.Valid) {command : Command}
    (appends : command.appends = true) {label : Label} {left right : Name}
    (shares : (after (perform command) registry).arena.Shares left right label) :
    registry.arena.Shares left right label ∨
      label = "" ∧ command = .intern "" ∧ "" ∈ registry.dialect.builtinLabels ∧
        succeeds (intern "") registry = true := by
  cases command with
  | intern text =>
      rw [perform, after_map] at shares
      rw [Command.intern.injEq]
      exact listed.shares_of_shares_intern valid shares
  | derive name =>
      rw [perform, after_map, Arena.shares_iff, label?_after_derive,
        label?_after_derive] at shares
      exact .inl (Arena.shares_iff.mpr shares)
  | verbatim arity =>
      rw [perform, Arena.shares_iff, label?_after_internVerbatim?,
        label?_after_internVerbatim?] at shares
      exact .inl (Arena.shares_iff.mpr shares)
  | assignLabels => exact absurd appends (by simp [Command.appends])

private theorem shared_perform_iff (sound : registry.Sound) {command : Command}
    (appends : command.appends = true) (label : Label) :
    (after (perform command) registry).arena.Shared label ↔
      registry.arena.Shared label ∨
        label = "" ∧ command = .intern "" ∧ "" ∈ registry.dialect.builtinLabels ∧
          succeeds (intern "") registry = true := by
  constructor
  · intro shared
    rcases shared with ⟨left, right, shares⟩
    rcases listed.shares_of_shares_perform sound.arena appends shares with before | again
    · exact .inl ⟨left, right, before⟩
    · exact .inr again
  · intro given
    rcases given with before | ⟨rfl, rfl, enumerated, succeeded⟩
    · exact (growth_perform appends registry).shared sound.arena before
    · rw [perform, after_map]
      exact listed.shared_intern_empty sound.toConsistent enumerated succeeded

/-- Commands that only append make no label shared but the empty one, and that one exactly if a
built-in has it and it is interned again. -/
theorem shared_run_iff (sound : registry.Sound) {commands : List Command}
    (appends : ∀ command ∈ commands, command.appends = true) (label : Label) :
    (run commands registry).arena.Shared label ↔
      registry.arena.Shared label ∨
        label = "" ∧ "" ∈ registry.dialect.builtinLabels ∧
          ∃ earlier rest, commands = earlier ++ .intern "" :: rest ∧
            succeeds (intern "") (run earlier registry) = true := by
  induction commands generalizing registry with
  | nil => simp [run]
  | cons command commands induction =>
      have first := appends command List.mem_cons_self
      have growth := growth_perform first registry
      have continuation := (growth.extension sound).continuation sound
      have onwards := induction (listed.continued continuation sound) (growth.sound sound)
        fun other member => appends other (List.mem_cons_of_mem command member)
      have step := listed.shared_perform_iff sound first label
      rw [growth.evolves.dialect, step] at onwards
      refine onwards.trans ?_
      rw [Lists.exists_split_cons_iff fun earlier =>
        succeeds (intern "") (run earlier registry) = true, or_assoc]
      constructor
      · intro given
        rcases given with before | ⟨empty, again, enumerated, succeeded⟩ |
          ⟨empty, enumerated, later⟩
        · exact .inl before
        · exact .inr ⟨empty, enumerated, .inl ⟨again, succeeded⟩⟩
        · exact .inr ⟨empty, enumerated, .inr later⟩
      · intro given
        rcases given with before | ⟨empty, enumerated, ⟨again, succeeded⟩ | later⟩
        · exact .inl before
        · exact .inr (.inl ⟨empty, again, enumerated, succeeded⟩)
        · exact .inr (.inr ⟨empty, enumerated, later⟩)

end Listed

/-! ## The finished registry -/

private theorem listed_ofDialect {dialect : Dialect} {registry : Registry}
    (tabular : dialect.Tabular) (built : ofDialect dialect = .ok registry) :
    registry.Listed ∧ ∀ label, registry.arena.Shared label ↔ dialect.Doubled label := by
  let Sharing (registry : Registry) : Prop :=
    registry.Listed ∧ ∀ label, registry.arena.Shared label ↔ dialect.Doubled label
  refine @holds_of_closed dialect Sharing registry built (fun _ takes => takes.listed tabular) ?_
    (fun _ _ same holds => ⟨holds.1.predefined same, holds.2⟩)
    (fun _ _ holds => ⟨{ holds.1 with }, holds.2⟩)
  rintro label member earlier name later - sound done ⟨listed, doubled⟩
  have growth := growth_of_intern done
  refine ⟨listed.continued ((growth.extension sound).continuation sound) sound, fun other => ?_⟩
  rw [← doubled]
  constructor
  · rintro ⟨left, right, shares⟩
    rw [← after_of_ok done] at shares
    rcases listed.shares_of_shares_intern sound.arena shares with before | ⟨-, empty, -⟩
    · exact ⟨left, right, before⟩
    · exact absurd empty (nonempty_of_mem_identifierLabels member)
  · exact growth.shared sound.arena

theorem Reachable.listed {dialect : Dialect} {registry : Registry}
    (reachable : Reachable dialect registry) (tabular : dialect.Tabular) : registry.Listed :=
  reachable.continues (fun _ built => (listed_ofDialect tabular built).1)
    fun _ _ sound continuation listed => listed.continued continuation sound

/-! ## Assigning labels -/

private theorem installAll_kept_or_given {changes : List Relabelling} {registry : Registry}
    (valid : registry.arena.Valid)
    (inside : ∀ change ∈ changes, registry.contains change.name = true)
    (beyond : ∀ change ∈ changes, registry.boundaries.endBuiltins ≤ change.name)
    (name : Name) :
    (after (changes.forM install) registry).state? name = registry.state? name ∨
      ∃ change ∈ changes, change.name = name ∧
        (after (changes.forM install) registry).arena.label? name = some change.label := by
  induction changes generalizing registry with
  | nil => exact .inl rfl
  | cons change changes induction =>
      have others {other : Relabelling} (member : other ∈ changes) :=
        List.mem_cons_of_mem change member
      have sequence : (change :: changes).forM install =
          (install change >>= fun _ => changes.forM install : Update Unit) := rfl
      rw [sequence, after_sequence]
      rcases install_cases change registry with ⟨-, done⟩ | ⟨-, done | ⟨-, count, failed⟩⟩
      · rw [done]
        rcases induction valid (fun other member => inside other (others member))
          (fun other member => beyond other (others member)) with same | ⟨other, member, given⟩
        · exact .inl same
        · exact .inr ⟨other, others member, given⟩
      · let position := registry.arena.labels.position change.label
        have moved : Relabels [change.label] registry { registry with
            arena := (registry.arena.withLabel change.label).redefine change.name position } :=
          relabels_redefine valid (List.mem_singleton_self _) (beyond change List.mem_cons_self)
        have boundaries := moved.evolves.boundaries
        have stillBeyond : ∀ other ∈ changes, registry.boundaries.endBuiltins ≤ other.name :=
          fun other member => beyond other (others member)
        rw [done]
        rcases induction moved.arena
          (fun other member => moved.evolves.contains (inside other (others member)))
          stillBeyond with same | ⟨other, member, given⟩
        · by_cases isChanged : name = change.name
          · subst isChanged
            have final := relabels_installAll moved.arena
              (fun other member => List.mem_map_of_mem (f := Relabelling.label) member) stillBeyond
            have known : (registry.arena.withLabel change.label).contains change.name = true :=
              inside change List.mem_cons_self
            have labelled := Arena.label?_redefine_self known
              (registry.arena.labels.get?_position change.label)
            exact .inr ⟨change, List.mem_cons_self, rfl,
              (final.evolves.arenaLabel?_eq moved.arena same).trans labelled⟩
          · exact .inl (same.trans (Arena.state?_redefine_of_ne _ isChanged position))
        · exact .inr ⟨other, others member, given⟩
      · rw [failed]
        exact .inl rfl

private theorem assignLabels_kept_or_given {registry : Registry} {used : List Name}
    {illegal : List Label} {progress : Progress} (valid : registry.arena.Valid)
    (chosen : registry.chooseLabels used illegal = .ok progress) (name : Name) :
    (after (assignLabels used illegal) registry).arena.label? name =
        registry.arena.label? name ∨
      ∃ change ∈ progress.changes, change.name = name ∧
        (after (assignLabels used illegal) registry).arena.label? name = some change.label := by
  have choice := choice_of_chooseLabels valid chosen
  have first := choice.relabels
  have boundaries := first.evolves.boundaries
  have beyond : ∀ change ∈ progress.changes,
      progress.registry.boundaries.endBuiltins ≤ change.name :=
    fun change member => boundaries ▸ choice.beyond member
  have inside : ∀ change ∈ progress.changes, progress.registry.contains change.name = true :=
    fun change member => first.evolves.contains
      (choice.inside change.name (Registry.mem_targets.mp (choice.mem_targets member)).1)
  have installed := relabels_installAll choice.follows.arena
    (fun change member => List.mem_map_of_mem (f := Relabelling.label) member) beyond
  rw [after_assignLabels chosen]
  rcases installAll_kept_or_given choice.follows.arena inside beyond name with same | given
  · rw [installed.evolves.arenaLabel?_eq choice.follows.arena same,
      choice.follows.arenaLabel?_eq valid]
    cases shared : sharedLabel? progress.changes name with
    | none => exact .inl (Option.none_or)
    | some label =>
        rcases exists_aliased shared with ⟨existing, member⟩
        exact .inr ⟨_, member, rfl, Option.some_or⟩
  · exact .inr given

/-- Names come to share a label when one of them is made to share it, never by a label that is
generated. -/
theorem aliased_of_shares_assignLabels {registry : Registry} {used : List Name}
    {illegal : List Label} (valid : registry.arena.Valid) {label : Label} {left right : Name}
    (shares : (after (assignLabels used illegal) registry).arena.Shares left right label)
    (new : ¬registry.arena.Shares left right label) :
    ∃ progress name existing, registry.chooseLabels used illegal = .ok progress ∧
      Relabelling.aliased name existing label ∈ progress.changes ∧
      (name = left ∨ name = right) := by
  cases chosen : registry.chooseLabels used illegal with
  | error error =>
      have unchanged : after (assignLabels used illegal) registry = registry := by
        rw [after, assignLabels_eq, chosen]
      exact absurd (unchanged ▸ shares) new
  | ok progress =>
      have choice := (choice_of_chooseLabels valid chosen).follows.chosen
      have aliased {change : Relabelling} (member : change ∈ progress.changes)
          (given : change.label = label) {carrier : Name}
          (carried : registry.arena.label? carrier = some label) :
          ∃ existing, Relabelling.aliased change.name existing label ∈ progress.changes := by
        subst given
        cases change with
        | generated name label =>
            exact absurd carried ((choice.isGenerated_iff member).mp rfl carrier)
        | aliased name existing label => exact ⟨existing, member⟩
      rcases shares with ⟨apart, atLeft, atRight⟩
      rcases assignLabels_kept_or_given valid chosen left with
        leftSame | ⟨leftChange, leftMember, rfl, leftGiven⟩
      · rcases assignLabels_kept_or_given valid chosen right with
          rightSame | ⟨rightChange, rightMember, rfl, rightGiven⟩
        · exact absurd ⟨apart, leftSame.symm.trans atLeft, rightSame.symm.trans atRight⟩ new
        · have given := Option.some.inj (rightGiven.symm.trans atRight)
          rcases aliased rightMember given (leftSame.symm.trans atLeft) with ⟨existing, member⟩
          exact ⟨progress, _, existing, rfl, member, .inr rfl⟩
      · have given := Option.some.inj (leftGiven.symm.trans atLeft)
        rcases assignLabels_kept_or_given valid chosen right with
          rightSame | ⟨rightChange, rightMember, rfl, rightGiven⟩
        · rcases aliased leftMember given (rightSame.symm.trans atRight) with ⟨existing, member⟩
          exact ⟨progress, _, existing, rfl, member, .inl rfl⟩
        · have labels := given.trans (Option.some.inj (rightGiven.symm.trans atRight)).symm
          have same := List.inj_on_of_nodup_map choice.nodup leftMember rightMember labels
          exact absurd (congrArg Relabelling.name same) apart

/-! ## The guarantee -/

/-- Two defined names carry the label. -/
def Shares (registry : Registry) (left right : Name) (label : Label) : Prop :=
  left ≠ right ∧ registry.Carries left label ∧ registry.Carries right label

private theorem shares_iff {registry : Registry} (valid : registry.arena.Valid) {left right : Name}
    {label : Label} :
    registry.Shares left right label ↔ registry.arena.Shares left right label := by
  rw [Shares, carries_iff valid, carries_iff valid, Arena.shares_iff]

/-- A registry of a dialect that is put together from declarations is set up with two names
for a label exactly if a built-in has the label of a type or of the verbatim base. As long as
names are only appended, two names come to share the empty label, if a built-in has it and it
is interned, and no other one. An assignment makes names share labels by aliases only. -/
theorem shared_labels_iff {declarations : List Dialect.Declaration} {start : Registry}
    (built : ofDialect (.ofDeclarations declarations) = .ok start) :
    (∀ commands label, (∀ command ∈ commands, command.appends = true) →
      ((∃ left right, (run commands start).Shares left right label) ↔
        (Dialect.ofDeclarations declarations).Doubled label ∨
          label = "" ∧ "" ∈ (Dialect.ofDeclarations declarations).builtinLabels ∧
            ∃ earlier rest, commands = earlier ++ .intern "" :: rest ∧
              succeeds (intern "") (run earlier start) = true)) ∧
    ∀ registry command left right label,
      Reachable (.ofDeclarations declarations) registry →
      (after (perform command) registry).Shares left right label →
      ¬registry.Shares left right label →
      (label = "" ∧ "" ∈ (Dialect.ofDeclarations declarations).builtinLabels ∧
          command = .intern "") ∨
        ∃ used illegal progress name existing, command = .assignLabels used illegal ∧
          registry.chooseLabels used illegal = .ok progress ∧
          .aliased name existing label ∈ progress.changes ∧ (name = left ∨ name = right) := by
  have tabular := Dialect.tabular_ofDeclarations declarations
  refine ⟨fun commands label appends => ?_,
    fun registry command left right label reachable shares new => ?_⟩
  · have reachable := Reachable.start built
    rcases listed_ofDialect tabular built with ⟨listed, doubled⟩
    have valid := (reachable.run commands).sound.2.arena
    have shared := listed.shared_run_iff reachable.sound.2 appends label
    rw [doubled, reachable.sound.1] at shared
    simp only [shares_iff valid]
    exact shared
  · have sound := reachable.sound.2
    have listed := reachable.listed tabular
    rw [shares_iff (reachable.step command).sound.2.arena] at shares
    rw [shares_iff sound.arena] at new
    cases appends : command.appends with
    | true =>
        rcases listed.shares_of_shares_perform sound.arena appends shares with
          before | ⟨empty, again, enumerated, -⟩
        · exact absurd before new
        · rw [reachable.sound.1] at enumerated
          exact .inl ⟨empty, enumerated, again⟩
    | false =>
        cases command with
        | assignLabels used illegal =>
            rw [after_perform_assignLabels] at shares
            rcases aliased_of_shares_assignLabels sound.arena shares new with
              ⟨progress, name, existing, chosen, member, about⟩
            exact .inr ⟨used, illegal, progress, name, existing, rfl, chosen, member, about⟩
        | intern | derive | verbatim => exact absurd appends (by simp [Command.appends])

/-- A type and a built-in have the same label, and another built-in has the empty one. -/
theorem shared_labels_of_type_and_builtins :
    ∃ start, ofDialect (.ofDeclarations [.valueType "a", .builtin (.untyped "a" ⟨0, 0⟩),
        .builtin (.untyped "" ⟨0, 0⟩)]) = .ok start ∧
      (∃ left right, start.Shares left right "a") ∧
      (∀ left right, ¬start.Shares left right "") ∧
      ∃ left right, (run [.intern ""] start).Shares left right "" := by
  have passed : reaches (.ofDeclarations [.valueType "a", .builtin (.untyped "a" ⟨0, 0⟩),
      .builtin (.untyped "" ⟨0, 0⟩)]) [] (succeeds (intern "")) = true := by
    decide +kernel
  rcases exists_of_reaches passed with ⟨start, built, succeeded⟩
  have appended := (shared_labels_iff built).1
  refine ⟨start, built, ?_, fun left right shares => ?_, ?_⟩
  · exact (appended [] "a" (by simp)).mpr
      (.inl ⟨by decide +kernel, by decide +kernel, .inr ⟨by decide, by decide +kernel⟩⟩)
  · rcases (appended [] "" (by simp)).mp ⟨left, right, shares⟩ with
      doubled | ⟨-, -, earlier, rest, split, -⟩
    · exact Dialect.not_doubled_empty _ doubled
    · exact absurd split (by simp)
  · exact (appended [.intern ""] "" (by simp [Command.appends])).mpr
      (.inr ⟨rfl, by decide +kernel, [], [], rfl, succeeded⟩)

end NameRegistry.Registry
