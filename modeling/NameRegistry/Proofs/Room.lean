import NameRegistry.Proofs.Separation

/-! # Room for a dialect

Interning a label takes one name and one label at the most, and the setup of a registry interns
a bounded number of them. In an unambiguous dialect a setup can only fail because these do not
fit, so it succeeds for every dialect that is small enough.
-/

namespace NameRegistry

namespace Registry

/-! ## Updates with a bounded need of room -/

/-- On a registry of the dialect, the update takes at most `count` new names and labels, and
it fails only if there is no room for that many. -/
private def Takes (dialect : Dialect) (count : Nat) (update : Update α) : Prop :=
  ∀ registry, registry.dialect = dialect →
    (∃ result later, update registry = .ok result later ∧ later.dialect = dialect ∧
      later.size ≤ registry.size + count ∧
      later.arena.labels.size ≤ registry.arena.labels.size + count) ∨
    (Arena.capacity < registry.size + count ∨
      Arena.labelCapacity < registry.arena.labels.size + count) ∧
      ∃ number later, update registry = .error (.arenaFull number) later

namespace Takes

variable {dialect : Dialect} {left right count : Nat}

private theorem value (result : α) : Takes dialect 0 (pure result) :=
  fun registry subject =>
    .inl ⟨result, registry, rfl, subject, Nat.le_refl _, Nat.le_refl _⟩

private theorem change {modification : Registry → Registry}
    (same : ∀ registry, registry.dialect = dialect → SameNames registry (modification registry)) :
    Takes dialect 0 (modify modification) := by
  intro registry subject
  rcases same registry subject with ⟨dialect, arena⟩
  refine .inl ⟨(), modification registry, rfl, dialect.trans subject, ?_, ?_⟩
  · rw [Registry.size, arena]
    exact Nat.le_refl _
  · rw [arena]
    exact Nat.le_refl _

private theorem intern {label : Label} (ordinary : dialect.Ordinary label) :
    Takes dialect 1 (intern label) := by
  intro registry subject
  subst subject
  rw [intern_ordinary ordinary]
  cases registry.present? label with
  | some name => exact .inl ⟨name, registry, rfl, rfl, by omega, by omega⟩
  | none =>
      simp only
      rcases onArena_define_cases label registry with done | ⟨full, number, later, -, failed⟩
      · refine .inl ⟨_, _, done, rfl, ?_, ?_⟩
        · exact Nat.le_of_eq (Arena.size_append (registry.arena.withLabel label) _)
        · exact registry.arena.labels.size_withLabel_le label
      · exact .inr ⟨by omega, number, later, failed⟩

private theorem sequence {first : Update α} {next : α → Update β} (one : Takes dialect left first)
    (rest : ∀ result, Takes dialect right (next result)) :
    Takes dialect (left + right) (first >>= next) := by
  intro registry subject
  simp only [bind, EStateM.bind]
  rcases one registry subject with
    ⟨result, middle, done, same, names, labels⟩ | ⟨full, number, later, failed⟩
  · rw [done]
    rcases rest result middle same with
      ⟨final, later, finished, still, moreNames, moreLabels⟩ | ⟨full, number, later, failed⟩
    · exact .inl ⟨final, later, finished, still, by omega, by omega⟩
    · exact .inr ⟨by omega, number, later, failed⟩
  · rw [failed]
    exact .inr ⟨by omega, number, later, rfl⟩

private theorem read {next : Registry → Update β}
    (rest : ∀ registry, registry.dialect = dialect → Takes dialect count (next registry)) :
    Takes dialect count (get >>= next) :=
  fun registry subject => rest registry subject registry subject

private theorem more {update : Update α} (takes : Takes dialect left update)
    (fewer : left ≤ right) : Takes dialect right update := by
  intro registry subject
  rcases takes registry subject with
    ⟨result, later, done, same, names, labels⟩ | ⟨full, number, later, failed⟩
  · exact .inl ⟨result, later, done, same, by omega, by omega⟩
  · exact .inr ⟨by omega, number, later, failed⟩

end Takes

private theorem Composed.takes {dialect : Dialect} {count : Nat} {update : Update α}
    (composed : Composed dialect (· ∈ "" :: setupLabels dialect) SameNames count update)
    (unambiguous : dialect.Unambiguous) : Takes dialect count update := by
  induction composed with
  | value result => exact .value result
  | change allowed => exact .change allowed
  | intern listed =>
      -- The labels of the setup are no verbatim labels, so each takes one name at the most.
      rcases List.mem_cons.mp listed with rfl | listed
      · exact .intern (unambiguous.ordinary_of_unread (by decide +kernel))
      · exact .intern (unambiguous.ordinary_setupLabels listed)
  | sequence _ _ one others => exact .sequence one others
  | read _ others => exact .read others
  | more _ fewer induction => exact .more induction fewer

theorem ofDialect_cases {dialect : Dialect} (unambiguous : dialect.Unambiguous) :
    (∃ registry, ofDialect dialect = .ok registry) ∨
      Arena.capacity < dialect.types.length + dialect.builtinLabels.length + 13 ∧
        ∃ count, ofDialect dialect = .error (.arenaFull count) := by
  have sizes : ({ dialect } : Registry).size = 0 ∧
      ({ dialect } : Registry).arena.labels.size = 0 := ⟨rfl, rfl⟩
  have capacities : Arena.labelCapacity = Arena.capacity + 1 := rfl
  unfold ofDialect
  rcases (composed_setup dialect).takes unambiguous { dialect } rfl with
    ⟨result, later, done, -⟩ | ⟨full, count, later, failed⟩
  · rw [done]
    exact .inl ⟨later, rfl⟩
  · rw [failed]
    exact .inr ⟨by omega, count, rfl⟩

end Registry

end NameRegistry
