import Mathlib.Data.List.Basic

/-! Lists that are gone through one item after the other. -/

namespace NameRegistry.Lists

variable {α : Type u} {β : Type v}

theorem mem_of_place {items seen rest : List α} {item : α}
    (place : items = seen ++ item :: rest) : item ∈ items := by
  simp [place]

theorem exists_split_cons_iff {head wanted : α} {tail : List α} (Holds : List α → Prop) :
    (∃ earlier rest, head :: tail = earlier ++ wanted :: rest ∧ Holds earlier) ↔
      head = wanted ∧ Holds [] ∨
        ∃ earlier rest, tail = earlier ++ wanted :: rest ∧ Holds (head :: earlier) := by
  constructor
  · intro given
    rcases given with ⟨earlier, rest, split, holds⟩
    cases earlier with
    | nil =>
        cases split
        exact .inl ⟨rfl, holds⟩
    | cons first earlier =>
        cases split
        exact .inr ⟨earlier, rest, rfl, holds⟩
  · intro given
    rcases given with ⟨rfl, holds⟩ | ⟨earlier, rest, rfl, holds⟩
    · exact ⟨[], tail, rfl, holds⟩
    · exact ⟨head :: earlier, rest, rfl, holds⟩

theorem not_mem_append_filter {known items seen rest : List α} {item : α} {keep : α → Bool}
    (nodup : (known ++ items.filter keep).Nodup) (place : items = seen ++ item :: rest)
    (kept : keep item = true) : item ∉ known ++ seen.filter keep := by
  intro member
  rw [place, List.filter_append, ← List.append_assoc] at nodup
  exact (List.nodup_append.mp nodup).2.2 item member item (by simp [kept]) rfl

theorem bind_getElem?_concat (items : List α) (item : α) (index : Nat) (function : α → Option β) :
    (items ++ [item])[index]?.bind function =
      if index = items.length then function item else items[index]?.bind function := by
  by_cases last : index = items.length
  · simp [last]
  · rw [if_neg last]
    by_cases inside : index < items.length
    · rw [List.getElem?_append_left inside]
    · rw [List.getElem?_eq_none (by simp; omega), List.getElem?_eq_none (by omega)]

theorem eraseDups_concat [BEq α] [LawfulBEq α] (items : List α) (item : α) :
    (items ++ [item]).eraseDups =
      if item ∈ items then items.eraseDups else items.eraseDups ++ [item] := by
  rw [List.eraseDups_append, List.removeAll]
  split
  · next present => simp [present]
  · next absent => simp [absent, List.eraseDups_cons]

end NameRegistry.Lists
