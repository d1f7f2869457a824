import Mathlib.Data.List.Induction
import NameRegistry.Dialect.Presets
import NameRegistry.Proofs.Uniqueness

/-! # The greedy assignment

The labels that an assignment is expected to give can be read off the registry before
it: the names that need one are taken in order, and each gets the least free candidate
of its base's label. The second walk looks at a base only when it comes to the name,
and by then the base may share another label. This is where the two part.
-/

namespace NameRegistry.Registry

/-! ## The expected labels -/

/-- Gives a name the least free candidate of the label that its base has. -/
def greedyStep (registry : Registry) (occupied : List Label) (given : List (Name × Label))
    (name : Name) : List (Name × Label) :=
  match registry.baseLabel? name with
  | some base => given ++ [(name, Suffix.leastFree base (given.map (·.2) ++ occupied))]
  | none => given

def greedyFrom (registry : Registry) (occupied : List Label) (names : List Name) :
    List (Name × Label) :=
  names.foldl (registry.greedyStep occupied) []

/-- The names that need a label, each with the label that it is expected to get. -/
def greedy (registry : Registry) (used : List Name) (illegal : List Label) :
    List (Name × Label) :=
  registry.greedyFrom (registry.takenLabels used ++ illegal) (registry.targets used illegal)

/-- The label that a name is expected to have after an assignment. -/
def greedyLabel? (registry : Registry) (used : List Name) (illegal : List Label)
    (name : Name) : Option Label :=
  ((registry.greedy used illegal).lookup name).or (registry.label? name)

private theorem greedyFrom_concat (registry : Registry) (occupied : List Label) (names : List Name)
    (name : Name) :
    registry.greedyFrom occupied (names ++ [name]) =
      registry.greedyStep occupied (registry.greedyFrom occupied names) name := by
  simp [greedyFrom]

private theorem greedyFrom_subset_concat (registry : Registry) (occupied : List Label)
    (names : List Name) (name : Name) :
    registry.greedyFrom occupied names ⊆ registry.greedyFrom occupied (names ++ [name]) := by
  intro pair member
  rw [greedyFrom_concat, greedyStep]
  split
  · exact List.mem_append_left _ member
  · exact member

private theorem mem_greedyFrom {registry : Registry} {occupied : List Label} {names : List Name}
    {name : Name} {label : Label} (member : (name, label) ∈ registry.greedyFrom occupied names) :
    name ∈ names ∧ ∃ base bump, registry.baseLabel? name = some base ∧
      label = Suffix.candidate base bump ∧ label ∉ occupied := by
  induction names using List.reverseRecOn with
  | nil => exact absurd member (by simp [greedyFrom])
  | append_singleton names last induction =>
      rw [greedyFrom_concat, greedyStep] at member
      split at member
      · next base based =>
          rcases List.mem_append.mp member with before | final
          · rcases induction before with ⟨present, found⟩
            exact ⟨List.mem_append_left _ present, found⟩
          · cases List.mem_singleton.mp final
            have free := Suffix.free_not_mem base
              ((registry.greedyFrom occupied names).map (·.2) ++ occupied)
            rw [Suffix.free_eq_leastFree] at free
            refine ⟨List.mem_append_right _ (List.mem_singleton_self _), base, _, based, rfl, ?_⟩
            exact fun present => free (List.mem_append_right _ present)
      · rcases induction member with ⟨present, found⟩
        exact ⟨List.mem_append_left _ present, found⟩

private theorem map_fst_greedyFrom {registry : Registry} {occupied : List Label} {names : List Name}
    (based : ∀ name ∈ names, ∃ base, registry.baseLabel? name = some base) :
    (registry.greedyFrom occupied names).map (·.1) = names := by
  induction names using List.reverseRecOn with
  | nil => rfl
  | append_singleton names last induction =>
      rcases based last (List.mem_append_right _ (List.mem_singleton_self _)) with ⟨base, found⟩
      rw [greedyFrom_concat, greedyStep, found]
      simp [induction fun name member => based name (List.mem_append_left _ member)]

/-! ## What was chosen, and when -/

namespace Chosen

variable {registry : Registry} {taken illegal : List Label}
  {before after changes : List Relabelling} {change : Relabelling}

private theorem of_append (chosen : Chosen registry taken illegal (before ++ after)) :
    Chosen registry taken illegal before := by
  induction after using List.reverseRecOn with
  | nil => simpa using chosen
  | append_singleton after last induction =>
      rw [← List.append_assoc] at chosen
      generalize all : before ++ after ++ [last] = changes at chosen
      cases chosen with
      | nil => exact absurd all (by simp)
      | snoc earlier =>
          rcases List.append_inj' all rfl with ⟨same, -⟩
          exact induction (same ▸ earlier)

private theorem last (chosen : Chosen registry taken illegal (before ++ change :: after)) :
    (∃ base, registry.currentBase? before change.name = some base ∧
      change.label = Suffix.free base (inUse taken illegal before)) ∧
    (change.isGenerated = true ↔
      ∀ carrier, registry.arena.label? carrier ≠ some change.label) := by
  have split : before ++ change :: after = (before ++ [change]) ++ after := by simp
  rw [split] at chosen
  have final := chosen.of_append
  generalize all : before ++ [change] = changes at final
  cases final with
  | nil => exact absurd all (by simp)
  | snoc earlier current free fresh =>
      rcases List.append_inj' all rfl with ⟨rfl, same⟩
      cases same
      exact ⟨⟨_, current, free⟩, fresh⟩

theorem isGenerated_iff (chosen : Chosen registry taken illegal changes)
    (member : change ∈ changes) :
    change.isGenerated = true ↔
      ∀ carrier, registry.arena.label? carrier ≠ some change.label := by
  rcases List.append_of_mem member with ⟨before, after, rfl⟩
  exact chosen.last.2

end Chosen

/-! ## Agreement -/

private def pairs (changes : List Relabelling) : List (Name × Label) :=
  changes.map fun change => (change.name, change.label)

private theorem mem_pairs {changes : List Relabelling} {change : Relabelling}
    (member : change ∈ changes) : (change.name, change.label) ∈ pairs changes :=
  List.mem_map_of_mem (f := fun change => (change.name, change.label)) member

private theorem currentBase?_of_not_shared {registry : Registry} {changes : List Relabelling}
    {name base : Name} (linked : registry.base? name = some base)
    (unshared : sharedLabel? changes base = none) :
    registry.currentBase? changes name = registry.baseLabel? name := by
  have same : registry.arena.base? name = some base := linked
  simp [currentBase?, baseLabel?, Arena.baseLabel?, linked, same, unshared]

private theorem Chosen.sharedLabel?_base_eq_none {registry : Registry} {taken illegal : List Label}
    {changes : List Relabelling} (chosen : Chosen registry taken illegal changes)
    (valid : registry.arena.Valid) {name base : Name}
    (absent : name ∉ changes.map Relabelling.name) (linked : registry.base? name = some base)
    (settled : ∀ label, registry.state? name = some (.derived base) →
      (base, label) ∈ pairs changes → ∀ carrier, registry.arena.label? carrier ≠ some label) :
    sharedLabel? changes base = none := by
  cases shared : sharedLabel? changes base with
  | none => rfl
  | some label =>
      rcases exists_aliased shared with ⟨existing, aliased⟩
      rcases valid.base?_eq_some linked with ⟨position, -, same | ⟨-, derived⟩⟩
      · have present := List.mem_map_of_mem (f := Relabelling.name) aliased
        exact absurd (same ▸ present) absent
      · have uncarried := settled label derived (mem_pairs aliased)
        have generated := (chosen.isGenerated_iff aliased).mpr uncarried
        exact absurd generated (by simp [Relabelling.isGenerated])

/-- What was chosen is what was expected, if no name goes back to one that has come to
share a label. -/
theorem Chosen.pairs_eq_greedyFrom {registry : Registry} {taken illegal : List Label}
    {changes : List Relabelling} (chosen : Chosen registry taken illegal changes)
    (valid : registry.arena.Valid) (distinct : (changes.map Relabelling.name).Nodup)
    (settled : ∀ name ∈ changes.map Relabelling.name, ∀ base label,
      registry.state? name = some (.derived base) →
      (base, label) ∈
        registry.greedyFrom (taken ++ illegal) (changes.map Relabelling.name) →
      ∀ carrier, registry.arena.label? carrier ≠ some label) :
    pairs changes =
      registry.greedyFrom (taken ++ illegal) (changes.map Relabelling.name) := by
  induction chosen with
  | nil => rfl
  | @snoc changes change label earlier current free fresh induction =>
      rw [List.map_append, List.map_singleton] at distinct settled ⊢
      have parts := List.nodup_append.mp distinct
      have last : change.name ∈ [change.name] := List.mem_singleton_self _
      have expected := induction parts.1 fun name member base label derived present =>
        settled name (List.mem_append_left _ member) base label derived
          (greedyFrom_subset_concat _ _ _ _ present)
      have inBase : registry.baseLabel? change.name = some label := by
        have found := current
        unfold currentBase? at found
        rcases Option.bind_eq_some_iff.mp found with ⟨base, linked, -⟩
        have absent : change.name ∉ changes.map Relabelling.name := fun present =>
          parts.2.2 change.name present change.name last rfl
        have unshared := earlier.sharedLabel?_base_eq_none valid absent linked
          fun text derived present =>
            settled change.name (List.mem_append_right _ last) base text derived
              (greedyFrom_subset_concat _ _ _ _ (expected ▸ present))
        exact (currentBase?_of_not_shared linked unshared).symm.trans current
      have occupied : inUse taken illegal changes =
          (registry.greedyFrom (taken ++ illegal) (changes.map Relabelling.name)).map (·.2) ++
            (taken ++ illegal) := by
        rw [← expected]
        simp [inUse, pairs, Function.comp_def]
      rw [greedyFrom_concat, greedyStep, inBase]
      simp only
      rw [← occupied, ← Suffix.free_eq_leastFree, ← free, ← expected]
      simp [pairs]

/-! ## Disagreement -/

private theorem mem_targets_of_derived {registry : Registry} {used : List Name}
    {illegal : List Label} {name base : Name} (sound : registry.Sound) (member : name ∈ used)
    (derived : registry.state? name = some (.derived base))
    (target : base ∈ registry.targets used illegal) :
    name ∈ registry.targets used illegal := by
  have beyond := (mem_targets.mp target).2.1
  have less := (sound.arena.derived name base derived).1
  have linked : registry.arena.base? name = some base := sound.arena.base?_derived derived
  have notVerbatim : base ≠ registry.predefined.verbatim := by
    intro same
    exact absurd sound.base (not_lt.mpr (same ▸ beyond))
  refine mem_targets.mpr ⟨member, Nat.le_trans beyond (Nat.le_of_lt less), ?_⟩
  simp [needsLabel, ownsLabel, isDerived, derived, isVerbatim, base?, linked, notVerbatim]

namespace Assigned

variable {registry later : Registry} {used : List Name} {illegal : List Label}
  {changes : List Relabelling} (assigned : Assigned registry used illegal changes later)
  (sound : registry.Sound)

include assigned

private theorem ascending_targets : Ascending (registry.targets used illegal) :=
  assigned.ascending.filter _

include sound

private theorem map_fst_greedy :
    (registry.greedy used illegal).map (·.1) = registry.targets used illegal := by
  apply map_fst_greedyFrom
  intro name target
  rcases sound.arena.exists_baseLabel? (assigned.inside name (mem_targets.mp target).1) with
    ⟨base, label, linked, labelled⟩
  exact ⟨label, by simp [Registry.baseLabel?, Arena.baseLabel?, linked, labelled]⟩

private theorem greedyLabel?_of_mem {name : Name} {label : Label}
    (member : (name, label) ∈ registry.greedy used illegal) :
    registry.greedyLabel? used illegal name = some label := by
  have distinct := assigned.map_fst_greedy sound ▸ assigned.ascending_targets.nodup
  rw [greedyLabel?, Keyed.lookup_of_mem distinct member, Option.some_or]

private theorem greedyLabel?_of_not_target {name : Name}
    (kept : name ∉ registry.targets used illegal) :
    registry.greedyLabel? used illegal name = registry.label? name := by
  rw [← assigned.map_fst_greedy sound] at kept
  have absent : (registry.greedy used illegal).lookup name = none := by
    rw [List.lookup_eq_none_iff]
    intro pair member
    have different : name ≠ pair.1 := fun same => kept (same ▸ List.mem_map_of_mem member)
    simpa using different
  rw [greedyLabel?, absent, Option.none_or]

omit sound in
private theorem exists_split {name earlier : Name} (less : earlier < name)
    (target : name ∈ registry.targets used illegal)
    (earlierTarget : earlier ∈ registry.targets used illegal) :
    ∃ before change after earlierChange, changes = before ++ change :: after ∧
      change.name = name ∧ earlierChange ∈ before ∧ earlierChange.name = earlier := by
  rcases assigned.exists_change target with ⟨change, present, rfl⟩
  rcases List.append_of_mem present with ⟨before, after, rfl⟩
  have names := assigned.names
  rw [List.map_append, List.map_cons] at names
  have order := assigned.ascending_targets
  rw [← names] at earlierTarget order
  rcases List.mem_map.mp (order.mem_of_lt earlierTarget less) with ⟨earlierChange, early, same⟩
  exact ⟨before, change, after, earlierChange, rfl, rfl, early, same⟩

omit sound in
private theorem sharedLabel?_of_carried {before after : List Relabelling} {change : Relabelling}
    (split : changes = before ++ after) (member : change ∈ before) {carrier : Name}
    (carried : registry.arena.label? carrier = some change.label) :
    sharedLabel? before change.name = some change.label := by
  have notGenerated : ¬change.isGenerated = true := by
    rw [assigned.chosen.isGenerated_iff (split ▸ List.mem_append_left after member)]
    exact fun uncarried => uncarried carrier carried
  have distinct : (changes.map Relabelling.name).Nodup :=
    assigned.names ▸ assigned.ascending_targets.nodup
  rw [split, List.map_append] at distinct
  cases change with
  | generated => exact absurd rfl notGenerated
  | aliased name existing label =>
      exact sharedLabel?_of_aliased (List.nodup_append.mp distinct).1 member

private theorem label?_of_shared_base {name base carrier : Name} {label : Label}
    (member : name ∈ used) (derived : registry.state? name = some (.derived base))
    (target : base ∈ registry.targets used illegal)
    (carried : registry.arena.label? carrier = some label)
    (given : later.label? base = some label) :
    ∃ outer, later.label? name = some (Suffix.candidate label (outer + 1)) := by
  have less := (sound.arena.derived name base derived).1
  have nameTarget := mem_targets_of_derived sound member derived target
  rcases assigned.exists_split less nameTarget target with
    ⟨before, change, after, baseChange, split, rfl, baseBefore, rfl⟩
  have present : change ∈ changes := split ▸ List.mem_append_right before List.mem_cons_self
  have basePresent : baseChange ∈ changes := split ▸ List.mem_append_left _ baseBefore
  have same := (assigned.label?_given basePresent).symm.trans given
  cases same
  have shared := assigned.sharedLabel?_of_carried split baseBefore carried
  rcases (split ▸ assigned.chosen).last.1 with ⟨current, found, chosen⟩
  have follows : current = baseChange.label := by
    have linked : registry.base? change.name = some baseChange.name :=
      sound.arena.base?_derived derived
    simpa [currentBase?, linked, shared] using found.symm
  subst follows
  have inUseLabel : baseChange.label ∈ inUse (registry.takenLabels used) illegal before := by
    simp only [inUse, List.append_assoc]
    exact List.mem_append_left _ (List.mem_map_of_mem baseBefore)
  rcases Suffix.exists_bump_of_mem inUseLabel with ⟨outer, counter⟩
  exact ⟨outer, by rw [assigned.label?_given present, chosen, counter]⟩

private theorem greedyLabel?_of_derived {name base : Name} {text : Label}
    (member : name ∈ used) (derived : registry.state? name = some (.derived base))
    (target : base ∈ registry.targets used illegal)
    (labelled : registry.arena.label? base = some text) :
    ∃ count, registry.greedyLabel? used illegal name = some (Suffix.candidate text count) := by
  have linked : registry.arena.base? name = some base := sound.arena.base?_derived derived
  have nameTarget := mem_targets_of_derived sound member derived target
  rw [← assigned.map_fst_greedy sound] at nameTarget
  rcases List.mem_map.mp nameTarget with ⟨⟨_, wanted⟩, wantedIn, rfl⟩
  rcases mem_greedyFrom wantedIn with ⟨-, nameBase, count, nameBased, wantedEq, -⟩
  have sameBase : nameBase = text := by
    simpa [Registry.baseLabel?, Arena.baseLabel?, linked, labelled] using nameBased.symm
  subst sameBase
  exact ⟨count, by rw [assigned.greedyLabel?_of_mem sound wantedIn, wantedEq]⟩

private theorem label?_ne_greedyLabel? {name base carrier : Name} {label : Label}
    (member : name ∈ used) (derived : registry.state? name = some (.derived base))
    (expected : (base, label) ∈ registry.greedy used illegal)
    (carried : registry.arena.label? carrier = some label)
    (agrees : later.label? base = some label) :
    later.label? name ≠ registry.greedyLabel? used illegal name := by
  rcases mem_greedyFrom expected with ⟨target, text, bump, based, counted, free⟩
  rcases sound.arena.derived name base derived with ⟨-, position, defined⟩
  have labelled : registry.arena.label? base = some text := by
    rwa [Registry.baseLabel?, Arena.baseLabel?, Arena.base?_of_defined defined] at based
  have owned := mem_takenLabels_of_carried (mem_targets.mp target).1 labelled
  rcases assigned.label?_of_shared_base sound member derived target carried agrees with
    ⟨outer, actual⟩
  rcases assigned.greedyLabel?_of_derived sound member derived target labelled with
    ⟨count, wanted⟩
  -- One counter comes on top of the other, and no label with one counter is like that.
  cases bump with
  | zero => exact absurd (List.mem_append_left _ owned) (counted ▸ free)
  | succ inner =>
      rw [actual, wanted, counted]
      intro same
      exact Suffix.candidate_candidate_ne text inner outer count (Option.some.inj same)

end Assigned

/-! ## When the labels are the expected ones -/

/-- An assignment gives the expected labels exactly if no used name goes back to a name
whose expected label is carried by a defined name. -/
theorem final_labels_eq_greedy_iff {dialect : Dialect} {registry later : Registry}
    {used : List Name} {illegal : List Label} {changes : List Relabelling}
    (reachable : Reachable dialect registry)
    (done : assignLabels used illegal registry = .ok changes later) :
    (∀ name ∈ used, later.label? name = registry.greedyLabel? used illegal name) ↔
      ∀ name ∈ used, ∀ base label, registry.state? name = some (.derived base) →
        (base, label) ∈ registry.greedy used illegal →
        ∀ carrier, registry.arena.label? carrier ≠ some label := by
  have sound := reachable.sound.2
  have assigned := assigned_of_assignLabels sound.arena done
  constructor
  · intro agrees name member base label derived expected carrier carried
    have baseUsed := (mem_targets.mp (mem_greedyFrom expected).1).1
    have baseLabel := (agrees base baseUsed).trans (assigned.greedyLabel?_of_mem sound expected)
    exact assigned.label?_ne_greedyLabel? sound member derived expected carried baseLabel
      (agrees name member)
  · intro settled name member
    have distinct : (changes.map Relabelling.name).Nodup :=
      assigned.names ▸ assigned.ascending_targets.nodup
    have same := assigned.chosen.pairs_eq_greedyFrom sound.arena distinct
      fun name given base label derived expected => by
        rw [assigned.names] at given expected
        exact settled name (mem_targets.mp given).1 base label derived expected
    rw [assigned.names] at same
    by_cases target : name ∈ registry.targets used illegal
    · rcases assigned.exists_change target with ⟨change, present, rfl⟩
      have expected : (change.name, change.label) ∈ registry.greedy used illegal := by
        rw [greedy, ← same]
        exact mem_pairs present
      exact (assigned.label?_given present).trans
        (assigned.greedyLabel?_of_mem sound expected).symm
    · exact (assigned.label?_kept sound (assigned.inside name member) target).trans
        (assigned.greedyLabel?_of_not_target sound target).symm

/-- A variable shares the label of one that is not used, so the counter of its variant
comes on top of the shared one. -/
theorem final_labels_ne_greedy_of_shared_base :
    ∃ registry changes later, Reachable .evm registry ∧
      assignLabels [⟨37⟩, ⟨39⟩] ["a"] registry = .ok changes later ∧
      ¬∀ name ∈ [(⟨37⟩ : Name), ⟨39⟩],
        later.label? name = registry.greedyLabel? [⟨37⟩, ⟨39⟩] ["a"] name := by
  have passed : scenario .evm [.intern "a", .intern "a_1", .derive ⟨37⟩] [⟨37⟩, ⟨39⟩] ["a"]
      (fun registry _ _ =>
        decide (registry.state? ⟨39⟩ = some (.derived ⟨37⟩) ∧
          registry.arena.label? ⟨38⟩ = some "a_1" ∧
          registry.targets [⟨37⟩, ⟨39⟩] ["a"] = [⟨37⟩, ⟨39⟩] ∧
          registry.baseLabel? ⟨37⟩ = some "a" ∧
          Suffix.free "a" (registry.takenLabels [⟨37⟩, ⟨39⟩] ++ ["a"]) = "a_1")) = true := by
    decide +kernel
  rcases exists_of_scenario passed with ⟨registry, changes, later, reachable, done, tested⟩
  rcases of_decide_eq_true tested with ⟨derived, carried, targets, based, free⟩
  refine ⟨registry, changes, later, reachable, done, fun agrees => ?_⟩
  have expected : (⟨37⟩, "a_1") ∈ registry.greedy [⟨37⟩, ⟨39⟩] ["a"] := by
    rw [greedy, targets]
    apply greedyFrom_subset_concat registry _ [⟨37⟩] ⟨39⟩
    rw [Suffix.free_eq_leastFree] at free
    simp [greedyFrom, greedyStep, based, free]
  exact (final_labels_eq_greedy_iff reachable done).mp agrees ⟨39⟩ (by decide) ⟨37⟩ "a_1"
    derived expected ⟨38⟩ carried

end NameRegistry.Registry
