import NameRegistry.Label.Basic
import NameRegistry.Name.Basic

/-! # Label table

The labels that have been interned, each once, in the order in which they came
in. A label keeps its position for good, since the table only ever grows.
-/

namespace NameRegistry

structure LabelTable where
  labels : Array Label := #[]
deriving DecidableEq, Repr

namespace LabelTable

def size (table : LabelTable) : Nat := table.labels.size

def get? (table : LabelTable) (position : LabelIndex) : Option Label :=
  table.labels[position.index]?

def find? (table : LabelTable) (label : Label) : Option LabelIndex :=
  (table.labels.findIdx? (· == label)).map LabelIndex.mk

def push (table : LabelTable) (label : Label) : LabelTable :=
  ⟨table.labels.push label⟩

@[simp] theorem size_push (table : LabelTable) (label : Label) :
    (table.push label).size = table.size + 1 := by
  simp [push, size]

theorem get?_push (table : LabelTable) (label : Label) (position : LabelIndex) :
    (table.push label).get? position =
      if position.index = table.size then some label else table.get? position := by
  by_cases last : position.index = table.labels.size <;>
    simp [push, get?, size, Array.getElem?_push, last]

theorem get?_of_find? {table : LabelTable} {label : Label} {position : LabelIndex}
    (found : table.find? label = some position) : table.get? position = some label := by
  rcases Option.map_eq_some_iff.mp found with ⟨index, located, rfl⟩
  rcases Array.findIdx?_eq_some_iff_getElem.mp located with ⟨inside, same, _⟩
  simpa [get?, inside] using same

theorem find?_eq_none_iff {table : LabelTable} {label : Label} :
    table.find? label = none ↔ ∀ position, table.get? position ≠ some label := by
  simp only [find?, Option.map_eq_none_iff, Array.findIdx?_eq_none_iff, get?]
  constructor
  · intro absent position present
    have member := Array.mem_of_getElem? present
    simpa using absent label member
  · intro absent present member
    rcases Array.getElem?_of_mem member with ⟨index, located⟩
    have different : present ≠ label := fun equal => absent ⟨index⟩ (equal ▸ located)
    simpa using different

end LabelTable

end NameRegistry
