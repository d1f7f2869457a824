/-! # Keyed lists

Lists of items that are looked up by a key. Inserting an item puts it in the
place of the one with the same key, or at the end, so a key that occurs once at
the most keeps doing so.
-/

namespace NameRegistry.Keyed

section Items

variable {α : Type u} {κ : Type v} [DecidableEq κ]

def find? (key : α → κ) (wanted : κ) (items : List α) : Option α :=
  items.find? (key · = wanted)

def insert (key : α → κ) (item : α) : List α → List α
  | [] => [item]
  | head :: tail => if key head = key item then item :: tail else head :: insert key item tail

theorem find?_insert (key : α → κ) (item : α) (wanted : κ) (items : List α) :
    find? key wanted (insert key item items) =
      if key item = wanted then some item else find? key wanted items := by
  induction items with
  | nil => by_cases same : key item = wanted <;> simp [find?, insert, same]
  | cons head tail induction =>
      by_cases replaced : key head = key item
      · by_cases same : key item = wanted <;> simp [find?, insert, replaced, same]
      · by_cases first : key head = wanted
        · subst wanted
          simp [find?, insert, replaced, Ne.symm replaced]
        · simpa [find?, insert, replaced, first] using induction

theorem map_insert (key : α → κ) (item : α) (items : List α) :
    (insert key item items).map key =
      if key item ∈ items.map key then items.map key else items.map key ++ [key item] := by
  induction items with
  | nil => simp [insert]
  | cons head tail induction =>
      by_cases replaced : key head = key item
      · simp [insert, replaced]
      · have other : key item ≠ key head := fun equal => replaced equal.symm
        by_cases present : key item ∈ tail.map key <;>
          simp_all [insert]

theorem nodup_insert (key : α → κ) (item : α) {items : List α}
    (distinct : (items.map key).Nodup) : ((insert key item items).map key).Nodup := by
  rw [map_insert]
  split
  · exact distinct
  · next absent =>
      simpa [List.nodup_append, distinct] using
        fun item member equal => absent (List.mem_map.mpr ⟨item, member, equal⟩)

end Items

/-! ## Pairs of keys and values -/

section Pairs

variable {α : Type u} {κ : Type v} [BEq κ] [LawfulBEq κ] {pairs : List (κ × α)} {key : κ}
  {value : α}

theorem mem_of_lookup (found : pairs.lookup key = some value) : (key, value) ∈ pairs := by
  rcases List.lookup_eq_some_iff.mp found with ⟨before, rest, rfl, -⟩
  simp

theorem lookup_of_mem (distinct : (pairs.map (·.1)).Nodup) (member : (key, value) ∈ pairs) :
    pairs.lookup key = some value := by
  rcases List.append_of_mem member with ⟨before, after, rfl⟩
  refine List.lookup_eq_some_iff.mpr ⟨before, after, rfl, fun pair earlier => ?_⟩
  rw [List.map_append] at distinct
  have different := (List.nodup_append.mp distinct).2.2 pair.1 (List.mem_map_of_mem earlier)
    key (by simp)
  simpa using Ne.symm different

end Pairs

end NameRegistry.Keyed
