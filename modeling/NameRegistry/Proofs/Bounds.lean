import NameRegistry.Proofs.Lookup
import NameRegistry.Proofs.Refusal

/-! # Links are flat and indices are in bounds

Every name of a registry goes back to a defined name in at most one step, whatever has
been appended and whatever labels have been assigned. So a command that is given names of
the registry never comes to a name that the arena does not have.
-/

namespace NameRegistry

namespace LabelTable

private theorem Distinct.nodup {table : LabelTable} (distinct : table.Distinct) :
    table.labels.toList.Nodup := by
  rw [List.nodup_iff_getElem?_ne_getElem?]
  intro left right less inside same
  have listed : table.labels.toList[left]? = some table.labels.toList[left] :=
    List.getElem?_eq_getElem (Nat.lt_trans less inside)
  have atLeft : table.get? ⟨left⟩ = some table.labels.toList[left] :=
    Array.getElem?_toList.symm.trans listed
  have atRight : table.get? ⟨right⟩ = some table.labels.toList[left] :=
    Array.getElem?_toList.symm.trans (same.symm.trans listed)
  cases distinct.unique atLeft atRight
  exact Nat.lt_irrefl left less

end LabelTable

namespace Arena.Valid

variable {arena : Arena} (valid : arena.Valid)

include valid

end Arena.Valid

namespace Registry

/-! ## Updates that stay inside -/

/-- The update does not come to a name that the arena does not have. -/
def StaysInside (update : Update α) (registry : Registry) : Prop :=
  ∀ name later, update registry ≠ .error (.outsideArena name) later

private theorem StaysInside.map {update : Update α} {registry : Registry} (function : α → β)
    (stays : StaysInside update registry) : StaysInside (function <$> update) registry := by
  intro name later failed
  simp only [Functor.map, EStateM.map] at failed
  split at failed
  · exact absurd failed (by simp)
  · next error middle cause =>
      cases failed
      exact stays name later cause

private theorem StaysInside.sequence {first : Update α} {next : α → Update β} {registry : Registry}
    (stays : StaysInside first registry)
    (rest : ∀ result middle, first registry = .ok result middle →
      StaysInside (next result) middle) : StaysInside (first >>= next) registry := by
  intro name later failed
  simp only [bind, EStateM.bind] at failed
  split at failed
  · next result middle done => exact rest result middle done name later failed
  · next error middle cause =>
      cases failed
      exact stays name later cause

/-! ## Appending -/

namespace Consistent

variable {registry : Registry} (consistent : registry.Consistent)

include consistent

theorem derive_of_contains {name : Name} (inside : registry.contains name = true) :
    (∃ base, registry.base? name = some base ∧
        derive name registry = .ok registry.arena.next (registry.derived base)) ∨
      Arena.capacity ≤ registry.size ∧
        ∃ count, derive name registry = .error (.arenaFull count) registry := by
  rcases derive_cases name registry with done | ⟨error, outside | ⟨full, count, rfl⟩, failed⟩
  · exact .inl done
  · rcases consistent.arena.exists_base? inside with ⟨base, linked⟩
    exact absurd (linked.symm.trans outside) (by simp)
  · exact .inr ⟨full, count, failed⟩

end Consistent

/-! ## Assigning labels -/

/-- All names that a command is given are names of the registry. -/
def Command.Within (registry : Registry) : Command → Prop
  | .derive name => registry.contains name = true
  | .assignLabels used _ => ∀ name ∈ used, registry.contains name = true
  | .intern _ | .verbatim _ => True

end Registry

end NameRegistry
