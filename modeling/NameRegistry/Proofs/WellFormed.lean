import NameRegistry.Dialect.Presets
import NameRegistry.Proofs.VerbatimLabel
import NameRegistry.Registry.Predefined

/-! # Well-formed dialects

In a well-formed dialect every label stands for one thing: a type, an enumerated
built-in or a member of the verbatim family. Where it does not matter what arity a
verbatim built-in is defined with, it is enough that the dialect is unambiguous.
-/

namespace NameRegistry.Dialect

/-- A dialect in which no label stands for two things. Its verbatim built-ins may be defined with
any arity. -/
structure Unambiguous (dialect : Dialect) : Prop where
  distinct : (dialect.types ++ dialect.builtinLabels).Nodup
  notBase : verbatimBaseLabel ∉ dialect.types ++ dialect.builtinLabels
  notVerbatim : ∀ label ∈ dialect.types ++ dialect.builtinLabels,
    Verbatim.ofLabel? label = none
  labelled : "" ∉ dialect.builtinLabels
  named : ∀ label definition, dialect.builtin? label = some definition →
    definition.name = label
  listed : ∀ label definition, dialect.builtin? label = some definition →
    label ∈ dialect.builtinLabels ∨ ∃ arity, Verbatim.ofLabel? label = some arity

structure WellFormed (dialect : Dialect) : Prop extends Unambiguous dialect where
  arity : ∀ label definition arity, dialect.builtin? label = some definition →
    Verbatim.ofLabel? label = some arity → definition.arity = arity

namespace Tables

theorem name_of_declaredBuiltin? {tables : Tables} {label : Label} {definition : Builtin}
    (found : tables.declaredBuiltin? label = some definition) :
    definition.name = label ∧ label ∈ tables.builtins.map (·.name) := by
  have same : definition.name = label := by
    simpa using List.find?_some found
  exact ⟨same, same ▸ List.mem_map_of_mem (List.mem_of_find?_eq_some found)⟩

theorem of_verbatimBuiltin? {tables : Tables} {label : Label} {definition : Builtin}
    (found : tables.verbatimBuiltin? label = some definition) :
    ∃ arity, Verbatim.ofLabel? label = some arity ∧ definition = Builtin.verbatim arity := by
  simp only [verbatimBuiltin?, Option.bind_eq_bind, Option.bind_eq_some_iff] at found
  rcases found with ⟨limit, -, arity, read, allowed⟩
  split at allowed
  · cases allowed
    exact ⟨arity, read, rfl⟩
  · exact absurd allowed (by simp)

theorem builtin?_cases {tables : Tables} {label : Label} {definition : Builtin}
    (found : tables.builtin? label = some definition) :
    tables.declaredBuiltin? label = some definition ∨
      tables.verbatimBuiltin? label = some definition := by
  unfold builtin? at found
  cases declared : tables.declaredBuiltin? label with
  | none => exact .inr (by simpa [declared] using found)
  | some known => exact .inl (by simpa [declared] using found)

theorem arity_verbatim (arity : Arity) : (Builtin.verbatim arity).arity = arity := by
  simp [Builtin.verbatim, Builtin.untyped, Builtin.arity]

theorem name_of_builtin? {tables : Tables} {label : Label} {definition : Builtin}
    (found : tables.builtin? label = some definition) : definition.name = label := by
  rcases builtin?_cases found with declared | verbatim
  · exact (name_of_declaredBuiltin? declared).1
  · rcases of_verbatimBuiltin? verbatim with ⟨arity, read, rfl⟩
    exact Verbatim.label_of_ofLabel? read

theorem listed_of_builtin? {tables : Tables} {label : Label} {definition : Builtin}
    (found : tables.builtin? label = some definition) :
    label ∈ tables.builtins.map (·.name) ∨ ∃ arity, Verbatim.ofLabel? label = some arity := by
  rcases builtin?_cases found with declared | verbatim
  · exact .inl (name_of_declaredBuiltin? declared).2
  · rcases of_verbatimBuiltin? verbatim with ⟨arity, read, -⟩
    exact .inr ⟨arity, read⟩

private theorem wellFormed (tables : Tables)
    (distinct : (tables.types ++ tables.builtins.map (·.name)).Nodup)
    (notBase : verbatimBaseLabel ∉ tables.types ++ tables.builtins.map (·.name))
    (notVerbatim : ∀ label ∈ tables.types ++ tables.builtins.map (·.name),
      Verbatim.ofLabel? label = none)
    (labelled : "" ∉ tables.builtins.map (·.name)) : tables.toDialect.WellFormed where
  distinct := distinct
  notBase := notBase
  notVerbatim := notVerbatim
  labelled := labelled
  named := fun _ _ found => name_of_builtin? found
  listed := fun _ _ found => listed_of_builtin? found
  arity := by
    intro label definition arity found read
    rcases builtin?_cases found with declared | verbatim
    · have listed := (name_of_declaredBuiltin? declared).2
      have unread := notVerbatim label (List.mem_append_right _ listed)
      exact absurd (read.symm.trans unread) (by simp)
    · rcases of_verbatimBuiltin? verbatim with ⟨other, otherRead, rfl⟩
      cases read.symm.trans otherRead
      exact arity_verbatim arity

end Tables

/-! ## The presets -/

theorem wellFormed_evm : evm.WellFormed :=
  Tables.wellFormed _ (by decide +kernel) (by decide +kernel) (by decide +kernel)
    (by decide +kernel)

theorem wellFormed_typed : typed.WellFormed :=
  Tables.wellFormed _ (by decide +kernel) (by decide +kernel) (by decide +kernel)
    (by decide +kernel)

/-! ## Labels of the verbatim family -/

namespace WellFormed

variable {dialect : Dialect} (wellFormed : dialect.WellFormed)

include wellFormed

theorem isVerbatim_iff {label : Label} {definition : Builtin}
    (found : dialect.builtin? label = some definition) :
    definition.isVerbatim = true ↔ Verbatim.ofLabel? label = some definition.arity := by
  rw [Builtin.isVerbatim, wellFormed.named label definition found]
  cases read : Verbatim.ofLabel? label with
  | none => simp
  | some arity => simp [wellFormed.arity label definition arity found read]

end WellFormed

end NameRegistry.Dialect
