import NameRegistry.Name.Arena

/-! # What an arena keeps true

Every defined name carries a label of the table, every derived name is linked to
an earlier defined name, and no label is kept twice. All changes of an arena are
made of three: a label is interned, an entry is appended, or an entry is given
the position of a label.
-/

namespace NameRegistry

theorem get_sequence (next : σ → EStateM ε σ β) (state : σ) :
    (get >>= next) state = next state state := rfl

namespace LabelTable

/-- The lookup of a label is the inverse of the positions, so no label is kept
twice. -/
def Distinct (table : LabelTable) : Prop :=
  ∀ position label, table.get? position = some label → table.find? label = some position

/-- Every position of a table has the same label in a later one. -/
def Grows (table later : LabelTable) : Prop :=
  ∀ position label, table.get? position = some label → later.get? position = some label

theorem Grows.refl (table : LabelTable) : table.Grows table := fun _ _ kept => kept

theorem Grows.trans {first second third : LabelTable} (earlier : first.Grows second)
    (later : second.Grows third) : first.Grows third :=
  fun position label kept => later position label (earlier position label kept)

theorem index_lt_of_get? {table : LabelTable} {position : LabelIndex} {label : Label}
    (kept : table.get? position = some label) : position.index < table.size := by
  have inside := (Array.getElem?_eq_some_iff.mp kept).1
  exact inside

private theorem find?_push (table : LabelTable) (label other : Label) :
    (table.push label).find? other =
      (table.find? other).or (if label = other then some ⟨table.size⟩ else none) := by
  by_cases same : label = other <;>
    cases located : table.labels.findIdx? (· == other) <;>
    simp [find?, push, size, Array.findIdx?_push, located, same]

private theorem grows_push (table : LabelTable) (label : Label) :
    table.Grows (table.push label) := by
  intro position other kept
  have inside := index_lt_of_get? kept
  rw [get?_push, if_neg (by omega)]
  exact kept

def position (table : LabelTable) (label : Label) : LabelIndex :=
  (table.find? label).getD ⟨table.size⟩

/-- The table once a label has been interned. -/
def withLabel (table : LabelTable) (label : Label) : LabelTable :=
  match table.find? label with
  | some _ => table
  | none => table.push label

theorem grows_withLabel (table : LabelTable) (label : Label) :
    table.Grows (table.withLabel label) := by
  unfold withLabel
  split
  · exact .refl table
  · exact table.grows_push label

theorem size_withLabel_le (table : LabelTable) (label : Label) :
    (table.withLabel label).size ≤ table.size + 1 := by
  unfold withLabel
  split
  · exact Nat.le_succ _
  · exact Nat.le_of_eq (table.size_push label)

theorem get?_position (table : LabelTable) (label : Label) :
    (table.withLabel label).get? (table.position label) = some label := by
  unfold withLabel position
  cases found : table.find? label with
  | some position => simpa using get?_of_find? found
  | none => simp [get?_push]

theorem Distinct.unique {table : LabelTable} (distinct : table.Distinct)
    {left right : LabelIndex} {label : Label} (atLeft : table.get? left = some label)
    (atRight : table.get? right = some label) : left = right :=
  Option.some.inj ((distinct left label atLeft).symm.trans (distinct right label atRight))

private theorem Distinct.withLabel {table : LabelTable} (distinct : table.Distinct)
    (label : Label) : (table.withLabel label).Distinct := by
  unfold LabelTable.withLabel
  split
  · exact distinct
  · next absent =>
      intro position other kept
      rw [get?_push] at kept
      rw [find?_push]
      by_cases last : position.index = table.size
      · rw [if_pos last] at kept
        cases kept
        rw [absent, if_pos rfl]
        exact congrArg some (congrArg LabelIndex.mk last.symm)
      · rw [if_neg last] at kept
        rw [distinct position other kept, Option.some_or]

end LabelTable

namespace Arena

/-! ## Changes as functions -/

def withLabel (arena : Arena) (label : Label) : Arena :=
  { arena with labels := arena.labels.withLabel label }

def append (arena : Arena) (state : NameState) : Arena :=
  { arena with entries := arena.entries.push state }

@[simp] theorem size_append (arena : Arena) (state : NameState) :
    (arena.append state).size = arena.size + 1 := by
  simp [append, size]

@[simp] theorem size_redefine (arena : Arena) (name : Name) (position : LabelIndex) :
    (arena.redefine name position).size = arena.size := by
  simp [redefine, size]

theorem state?_append (arena : Arena) (state : NameState) (name : Name) :
    (arena.append state).state? name =
      if name = arena.next then some state else arena.state? name := by
  rcases name with ⟨index⟩
  simp [append, state?, next, size, Array.getElem?_push]

theorem state?_redefine (arena : Arena) (name other : Name) (position : LabelIndex) :
    (arena.redefine name position).state? other =
      if other = name ∧ arena.contains name then some (.defined position)
      else arena.state? other := by
  rcases name with ⟨index⟩
  rcases other with ⟨place⟩
  simp only [redefine, state?, contains, size, Array.getElem?_setIfInBounds, Name.mk.injEq]
  by_cases same : index = place
  · subst same
    by_cases inside : index < arena.entries.size
    · simp [inside]
    · simp [inside]
  · simp [same, Ne.symm same]

private theorem state?_redefine_self {arena : Arena} {name : Name}
    (inside : arena.contains name = true) (position : LabelIndex) :
    (arena.redefine name position).state? name = some (.defined position) := by
  rw [state?_redefine, if_pos ⟨rfl, inside⟩]

theorem state?_redefine_of_ne (arena : Arena) {name other : Name} (different : other ≠ name)
    (position : LabelIndex) :
    (arena.redefine name position).state? other = arena.state? other := by
  rw [state?_redefine, if_neg fun same => different same.1]

theorem contains_iff {arena : Arena} {name : Name} :
    arena.contains name = true ↔ ∃ state, arena.state? name = some state := by
  rw [state?, contains, decide_eq_true_iff]
  constructor
  · intro inside
    exact ⟨_, Array.getElem?_eq_getElem inside⟩
  · intro given
    rcases given with ⟨state, known⟩
    exact (Array.getElem?_eq_some_iff.mp known).1

theorem contains_of_state? {arena : Arena} {name : Name} {state : NameState}
    (known : arena.state? name = some state) : arena.contains name = true :=
  contains_iff.mpr ⟨state, known⟩

theorem contains_of_lt {arena : Arena} {name : Name} (inside : name.index < arena.size) :
    arena.contains name = true := by
  simpa [contains] using inside

theorem lt_size {arena : Arena} {name : Name} (inside : arena.contains name = true) :
    name.index < arena.size := by
  simpa [contains] using inside

theorem ne_next {arena : Arena} {name : Name} (inside : arena.contains name = true) :
    name ≠ arena.next := by
  intro same
  subst same
  exact absurd (lt_size inside) (Nat.lt_irrefl arena.size)

theorem contains_append_iff (arena : Arena) (state : NameState) {name : Name} :
    (arena.append state).contains name = true ↔
      arena.contains name = true ∨ name = arena.next := by
  rcases name with ⟨index⟩
  simp only [contains, next, size_append, decide_eq_true_eq, Name.mk.injEq]
  omega

theorem contains_next (arena : Arena) (state : NameState) :
    (arena.append state).contains arena.next = true :=
  (contains_append_iff arena state).mpr (.inr rfl)

theorem mem_names {arena : Arena} {name : Name} :
    name ∈ arena.names ↔ arena.contains name = true := by
  rcases name with ⟨index⟩
  simp [names, contains]

/-! ## Changes as updates

An update of an arena has the effect of its function, or it fails because there
is no room left. -/

private theorem internLabel_cases (label : Label) (arena : Arena) :
    internLabel label arena = .ok (arena.labels.position label) (arena.withLabel label) ∨
      labelCapacity ≤ arena.labels.size ∧
        ∃ count, internLabel label arena = .error (.arenaFull count) arena := by
  unfold internLabel withLabel LabelTable.withLabel LabelTable.position
  cases arena.labels.find? label with
  | some position => exact .inl rfl
  | none =>
      by_cases room : arena.labels.size < labelCapacity
      · exact .inl (if_pos room)
      · exact .inr ⟨Nat.not_lt.mp room, _, if_neg room⟩

private theorem push_cases (state : NameState) (arena : Arena) :
    push state arena = .ok arena.next (arena.append state) ∨
      capacity ≤ arena.size ∧ ∃ count, push state arena = .error (.arenaFull count) arena := by
  by_cases room : arena.size < capacity
  · exact .inl (if_pos room)
  · exact .inr ⟨Nat.not_lt.mp room, _, if_neg room⟩

theorem define_cases (label : Label) (arena : Arena) :
    define label arena = .ok arena.next
        ((arena.withLabel label).append (.defined (arena.labels.position label))) ∨
      (capacity ≤ arena.size ∨ labelCapacity ≤ arena.labels.size) ∧
        ∃ count later, (later = arena ∨ later = arena.withLabel label) ∧
          define label arena = .error (.arenaFull count) later := by
  have sequence : define label = internLabel label >>= fun position => push (.defined position) :=
    rfl
  rw [sequence]
  simp only [bind, EStateM.bind]
  rcases internLabel_cases label arena with interned | ⟨large, count, full⟩
  · rw [interned]
    rcases push_cases (.defined (arena.labels.position label)) (arena.withLabel label) with
      pushed | ⟨large, count, full⟩
    · exact .inl pushed
    · exact .inr ⟨.inl large, count, _, .inr rfl, full⟩
  · rw [full]
    exact .inr ⟨.inr large, count, _, .inl rfl, rfl⟩

theorem derive_cases (name : Name) (arena : Arena) :
    (∃ base, arena.base? name = some base ∧
        derive name arena = .ok arena.next (arena.append (.derived base))) ∨
      (arena.base? name = none ∧ derive name arena = .error (.outsideArena name) arena) ∨
      capacity ≤ arena.size ∧
        ∃ count, derive name arena = .error (.arenaFull count) arena := by
  rw [derive, get_sequence]
  cases found : arena.base? name with
  | none => exact .inr (.inl ⟨rfl, rfl⟩)
  | some base =>
      rcases push_cases (.derived base) arena with pushed | full
      · exact .inl ⟨base, rfl, pushed⟩
      · exact .inr (.inr full)

theorem relabel_cases (name : Name) (label : Label) (arena : Arena) :
    relabel name label arena = .ok ()
        ((arena.withLabel label).redefine name (arena.labels.position label)) ∨
      labelCapacity ≤ arena.labels.size ∧
        ∃ count, relabel name label arena = .error (.arenaFull count) arena := by
  have sequence : relabel name label =
      internLabel label >>= fun position => modify (·.redefine name position) := rfl
  rw [sequence]
  simp only [bind, EStateM.bind]
  rcases internLabel_cases label arena with interned | ⟨large, count, full⟩
  · rw [interned]
    exact .inl rfl
  · rw [full]
    exact .inr ⟨large, count, rfl⟩

/-! ## Labels and links -/

theorem label?_of_defined {arena : Arena} {name : Name} {position : LabelIndex}
    (defined : arena.state? name = some (.defined position)) :
    arena.label? name = arena.labels.get? position := by
  simp [label?, defined]

theorem label?_eq_some_iff {arena : Arena} {name : Name} {label : Label} :
    arena.label? name = some label ↔
      ∃ position, arena.state? name = some (.defined position) ∧
        arena.labels.get? position = some label := by
  constructor
  · intro labelled
    unfold label? at labelled
    split at labelled
    · next position defined => exact ⟨position, defined, labelled⟩
    · exact absurd labelled (by simp)
  · intro given
    rcases given with ⟨position, defined, kept⟩
    exact (label?_of_defined defined).trans kept

theorem contains_of_label? {arena : Arena} {name : Name} {label : Label}
    (carried : arena.label? name = some label) : arena.contains name = true := by
  rcases label?_eq_some_iff.mp carried with ⟨position, defined, -⟩
  exact contains_of_state? defined

theorem label?_redefine_self {arena : Arena} {name : Name}
    (inside : arena.contains name = true) {position : LabelIndex} {label : Label}
    (kept : arena.labels.get? position = some label) :
    (arena.redefine name position).label? name = some label :=
  (label?_of_defined (state?_redefine_self inside position)).trans kept

theorem label?_redefine_of_ne (arena : Arena) {name other : Name} (different : other ≠ name)
    (position : LabelIndex) :
    (arena.redefine name position).label? other = arena.label? other := by
  simp only [label?, arena.state?_redefine_of_ne different]
  rfl

theorem label?_append_defined (arena : Arena) (position : LabelIndex) (name : Name) :
    (arena.append (.defined position)).label? name =
      if name = arena.next then arena.labels.get? position else arena.label? name := by
  unfold label?
  rw [state?_append]
  by_cases isNext : name = arena.next
  · rw [if_pos isNext, if_pos isNext]
    rfl
  · rw [if_neg isNext, if_neg isNext]
    rfl

theorem label?_append_derived (arena : Arena) (base name : Name) :
    (arena.append (.derived base)).label? name = arena.label? name := by
  unfold label?
  rw [state?_append]
  by_cases isNext : name = arena.next
  · have unknown : arena.state? arena.next = none := by simp [state?, next, size]
    rw [if_pos isNext, isNext, unknown]
  · rw [if_neg isNext]
    rfl

theorem base?_of_unknown {arena : Arena} {name : Name} (unknown : arena.state? name = none) :
    arena.base? name = none := by
  cases steps : arena.size <;> simp [base?, steps, follow, unknown]

theorem base?_of_defined {arena : Arena} {name : Name} {position : LabelIndex}
    (defined : arena.state? name = some (.defined position)) :
    arena.base? name = some name := by
  have inside := lt_size (contains_of_state? defined)
  rcases Nat.exists_eq_add_of_lt inside with ⟨steps, enough⟩
  simp [base?, enough, follow, defined]

private theorem base?_of_derived {arena : Arena} {name base : Name} {position : LabelIndex}
    (derived : arena.state? name = some (.derived base)) (earlier : base < name)
    (defined : arena.state? base = some (.defined position)) :
    arena.base? name = some base := by
  have inside := lt_size (contains_of_state? derived)
  have before := Name.lt_def.mp earlier
  have room : ∃ steps, arena.size = steps + 2 := ⟨arena.size - 2, by omega⟩
  rcases room with ⟨steps, enough⟩
  simp [base?, enough, follow, derived, defined]

/-! ## The invariant -/

structure Valid (arena : Arena) : Prop where
  labels : arena.labels.Distinct
  defined : ∀ name position, arena.state? name = some (.defined position) →
    ∃ label, arena.labels.get? position = some label
  derived : ∀ name base, arena.state? name = some (.derived base) →
    base < name ∧ ∃ position, arena.state? base = some (.defined position)

theorem valid_empty : ({} : Arena).Valid where
  labels := by
    intro position label kept
    exact absurd kept (by simp [LabelTable.get?])
  defined := by
    intro name position defined
    exact absurd defined (by simp [state?])
  derived := by
    intro name base derived
    exact absurd derived (by simp [state?])

namespace Valid

variable {arena : Arena} (valid : arena.Valid)

include valid

theorem base?_derived {name base : Name} (derived : arena.state? name = some (.derived base)) :
    arena.base? name = some base := by
  rcases valid.derived name base derived with ⟨earlier, position, defined⟩
  exact base?_of_derived derived earlier defined

theorem label?_isSome {name : Name} {position : LabelIndex}
    (defined : arena.state? name = some (.defined position)) :
    ∃ label, arena.label? name = some label := by
  rcases valid.defined name position defined with ⟨label, kept⟩
  exact ⟨label, (label?_of_defined defined).trans kept⟩

theorem base?_eq_some {name base : Name} (found : arena.base? name = some base) :
    ∃ position, arena.state? base = some (.defined position) ∧
      (name = base ∨ base < name ∧ arena.state? name = some (.derived base)) := by
  cases known : arena.state? name with
  | none => exact absurd ((base?_of_unknown known).symm.trans found) (by simp)
  | some state =>
      cases state with
      | defined position =>
          rw [base?_of_defined known] at found
          cases found
          exact ⟨position, known, .inl rfl⟩
      | derived linked =>
          rw [valid.base?_derived known] at found
          cases found
          rcases valid.derived name base known with ⟨earlier, position, defined⟩
          exact ⟨position, defined, .inr ⟨earlier, rfl⟩⟩

theorem base?_base {name base : Name} (linked : arena.base? name = some base) :
    arena.base? base = some base := by
  rcases valid.base?_eq_some linked with ⟨position, defined, -⟩
  exact base?_of_defined defined

theorem exists_base? {name : Name} (inside : arena.contains name = true) :
    ∃ base, arena.base? name = some base := by
  rcases contains_iff.mp inside with ⟨state, known⟩
  cases state with
  | defined position => exact ⟨name, base?_of_defined known⟩
  | derived base => exact ⟨base, valid.base?_derived known⟩

theorem exists_baseLabel? {name : Name} (inside : arena.contains name = true) :
    ∃ base label, arena.base? name = some base ∧ arena.label? base = some label := by
  rcases valid.exists_base? inside with ⟨base, found⟩
  rcases valid.base?_eq_some found with ⟨position, defined, -⟩
  rcases valid.label?_isSome defined with ⟨label, labelled⟩
  exact ⟨base, label, found, labelled⟩

/-! ## Changes keep the invariant -/

theorem withLabel (label : Label) : (arena.withLabel label).Valid where
  labels := valid.labels.withLabel label
  defined := by
    intro name position defined
    rcases valid.defined name position defined with ⟨kept, present⟩
    exact ⟨kept, arena.labels.grows_withLabel label position kept present⟩
  derived := valid.derived

theorem label?_withLabel (label : Label) (name : Name) :
    (arena.withLabel label).label? name = arena.label? name := by
  have state : (arena.withLabel label).state? name = arena.state? name := rfl
  unfold label?
  rw [state]
  split
  · next position defined =>
      rcases valid.defined name position defined with ⟨known, kept⟩
      exact (arena.labels.grows_withLabel label position known kept).trans kept.symm
  · rfl

theorem append_defined {position : LabelIndex} {label : Label}
    (kept : arena.labels.get? position = some label) :
    (arena.append (.defined position)).Valid where
  labels := valid.labels
  defined := by
    intro name place defined
    rw [state?_append] at defined
    split at defined
    · cases defined
      exact ⟨label, kept⟩
    · exact valid.defined name place defined
  derived := by
    intro name base derived
    rw [state?_append] at derived
    split at derived
    · cases derived
    · rcases valid.derived name base derived with ⟨earlier, place, defined⟩
      refine ⟨earlier, ?_⟩
      rw [state?_append]
      split
      · exact ⟨position, rfl⟩
      · exact ⟨place, defined⟩

theorem append_derived {base : Name} {position : LabelIndex}
    (defined : arena.state? base = some (.defined position)) :
    (arena.append (.derived base)).Valid where
  labels := valid.labels
  defined := by
    intro name place atPlace
    rw [state?_append] at atPlace
    split at atPlace
    · cases atPlace
    · exact valid.defined name place atPlace
  derived := by
    have old {name : Name} {place : LabelIndex}
        (known : arena.state? name = some (.defined place)) :
        (arena.append (.derived base)).state? name = some (.defined place) := by
      rw [state?_append, if_neg (ne_next (contains_of_state? known))]
      exact known
    intro name linked derived
    rw [state?_append] at derived
    split at derived
    · next isNext =>
        cases derived
        subst isNext
        exact ⟨lt_size (contains_of_state? defined), position, old defined⟩
    · rcases valid.derived name linked derived with ⟨earlier, place, known⟩
      exact ⟨earlier, place, old known⟩

theorem redefine {position : LabelIndex} {label : Label} (name : Name)
    (kept : arena.labels.get? position = some label) :
    (arena.redefine name position).Valid where
  labels := valid.labels
  defined := by
    intro other place defined
    rw [state?_redefine] at defined
    split at defined
    · cases defined
      exact ⟨label, kept⟩
    · exact valid.defined other place defined
  derived := by
    intro other base derived
    rw [state?_redefine] at derived
    split at derived
    · cases derived
    · rcases valid.derived other base derived with ⟨earlier, place, defined⟩
      refine ⟨earlier, ?_⟩
      rw [state?_redefine]
      split
      · exact ⟨position, rfl⟩
      · exact ⟨place, defined⟩

end Valid

/-! ## Carriers of labels -/

private theorem lastDefined?_eq_some {arena : Arena} {position : LabelIndex} {name : Name}
    (found : arena.lastDefined? position = some name) :
    arena.state? name = some (.defined position) := by
  simpa using List.find?_some found

theorem carrier?_eq_some {arena : Arena} {label : Label} {name : Name} {position : LabelIndex}
    (found : arena.carrier? label = some (name, position)) :
    arena.state? name = some (.defined position) ∧
      arena.labels.get? position = some label := by
  simp only [carrier?, Option.bind_eq_bind, Option.bind_eq_some_iff] at found
  rcases found with ⟨place, located, found⟩
  have kept := LabelTable.get?_of_find? located
  split at found
  · next atPosition =>
      cases found
      exact ⟨atPosition, kept⟩
  · rcases Option.map_eq_some_iff.mp found with ⟨last, isLast, equal⟩
    cases equal
    exact ⟨lastDefined?_eq_some isLast, kept⟩

theorem label?_of_carrier? {arena : Arena} {label : Label} {name : Name}
    {position : LabelIndex} (found : arena.carrier? label = some (name, position)) :
    arena.label? name = some label := by
  rcases carrier?_eq_some found with ⟨defined, kept⟩
  exact (label?_of_defined defined).trans kept

theorem Valid.exists_carrier? {arena : Arena} (valid : arena.Valid) {label : Label}
    {name : Name} (labelled : arena.label? name = some label) :
    ∃ carrier position, arena.carrier? label = some (carrier, position) := by
  rcases label?_eq_some_iff.mp labelled with ⟨position, defined, kept⟩
  have located := valid.labels position label kept
  by_cases atPosition : arena.state? ⟨position.index⟩ = some (.defined position)
  · exact ⟨⟨position.index⟩, position, by simp [carrier?, located, atPosition]⟩
  · have member : name ∈ arena.names.reverse :=
      List.mem_reverse.mpr (mem_names.mpr (contains_of_state? defined))
    have present : (arena.lastDefined? position).isSome := by
      rw [lastDefined?, List.find?_isSome]
      exact ⟨name, member, by simpa using defined⟩
    rcases Option.isSome_iff_exists.mp present with ⟨last, isLast⟩
    exact ⟨last, position, by simp [carrier?, located, atPosition, isLast]⟩

end Arena

end NameRegistry
