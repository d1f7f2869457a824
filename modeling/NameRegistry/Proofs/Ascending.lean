import Mathlib.Data.List.Basic
import Mathlib.Data.List.TakeWhile
import NameRegistry.Registry.FinalLabels

/-! # Ascending names

The check for neighbours that are out of order accepts exactly the ascending
lists, and a single walk over two ascending lists finds what they have in common.
-/

namespace NameRegistry

namespace Name

private theorem index_injective : Function.Injective index := fun _ _ same => congrArg mk same

instance : LinearOrder Name := .liftWithOrd' index index_injective fun left right => by
  rcases left with ⟨left⟩
  rcases right with ⟨right⟩
  simp [compare, instOrdName.ord]

end Name

abbrev Ascending (names : List Name) : Prop := names.Pairwise (· < ·)

namespace Ascending

theorem nodup {names : List Name} (ascending : Ascending names) : names.Nodup :=
  ascending.imp fun less => less.ne

theorem mem_of_lt {before after : List Name} {name earlier : Name}
    (ascending : Ascending (before ++ name :: after))
    (member : earlier ∈ before ++ name :: after) (less : earlier < name) :
    earlier ∈ before := by
  rcases List.mem_append.mp member with early | late
  · exact early
  · have rest := List.pairwise_append.mp ascending
    rcases List.mem_cons.mp late with rfl | later
    · exact absurd less (lt_irrefl earlier)
    · have greater := (List.pairwise_cons.mp rest.2.1).1 earlier later
      exact absurd (lt_trans less greater) (lt_irrefl earlier)

private theorem beyond {first name : Name} {rest : List Name}
    (ascending : Ascending (first :: rest)) (less : name < first) :
    ∀ other ∈ first :: rest, name < other := by
  intro other member
  rcases List.mem_cons.mp member with rfl | later
  · exact less
  · exact lt_trans less ((List.pairwise_cons.mp ascending).1 other later)

theorem first_or_not_mem {names : List Name} {name : Name} (ascending : Ascending names)
    (above : ∀ other ∈ names, name ≤ other) :
    (∃ later, names = name :: later ∧ names.filter (name < ·) = later) ∨
      name ∉ names ∧ names.filter (name < ·) = names := by
  cases names with
  | nil => exact .inr ⟨List.not_mem_nil, rfl⟩
  | cons first rest =>
      by_cases same : first = name
      · subst same
        have all : rest.filter (first < ·) = rest :=
          List.filter_eq_self.mpr (by simpa using (List.pairwise_cons.mp ascending).1)
        refine .inl ⟨rest, rfl, ?_⟩
        rw [List.filter_cons_of_neg (by simp), all]
      · have less := lt_of_le_of_ne (above first List.mem_cons_self) (Ne.symm same)
        have beyond := ascending.beyond less
        exact .inr ⟨fun member => lt_irrefl name (beyond name member),
          List.filter_eq_self.mpr (by simpa using beyond)⟩

theorem dropWhile_lt {names : List Name} (ascending : Ascending names) (name : Name) :
    names.dropWhile (· < name) = names.filter (name ≤ ·) := by
  induction names with
  | nil => rfl
  | cons first rest induction =>
      have parts := List.pairwise_cons.mp ascending
      by_cases less : first < name
      · have below : ¬name ≤ first := fun above => not_lt.mpr above less
        rw [List.dropWhile_cons_of_pos (by simpa using less),
          List.filter_cons_of_neg (by simpa using below)]
        exact induction parts.2
      · have all : ∀ other ∈ first :: rest, name ≤ other := by
          intro other member
          have above := not_lt.mp less
          rcases List.mem_cons.mp member with rfl | later
          · exact above
          · exact Nat.le_trans above (Nat.le_of_lt (parts.1 other later))
        rw [List.dropWhile_cons_of_neg (by simpa using less)]
        exact (List.filter_eq_self.mpr (by simpa using all)).symm

end Ascending

/-! ## Names of a range -/

/-- The names from one position up to another. -/
def namesBetween (start stop : Nat) : List Name :=
  (List.range' start (stop - start)).map Name.mk

theorem mem_namesBetween {start stop : Nat} {name : Name} :
    name ∈ namesBetween start stop ↔ start ≤ name.index ∧ name.index < stop := by
  rcases name with ⟨index⟩
  simp only [namesBetween, List.mem_map, List.mem_range'_1, Name.mk.injEq, exists_eq_right]
  omega

theorem ascending_namesBetween (start stop : Nat) : Ascending (namesBetween start stop) := by
  rw [Ascending, namesBetween, List.pairwise_map]
  exact List.pairwise_lt_range'

theorem namesBetween_succ {start stop : Nat} (le : start ≤ stop) :
    namesBetween start (stop + 1) = namesBetween start stop ++ [⟨stop⟩] := by
  have count : stop + 1 - start = stop - start + 1 := by omega
  have last : start + (stop - start) = stop := by omega
  rw [namesBetween, namesBetween, count, List.range'_concat, List.map_append, Nat.one_mul, last]
  rfl

/-! ## The check for neighbours -/

theorem firstDescent?_eq_none_iff : ∀ {names : List Name},
    firstDescent? names = none ↔ Ascending names
  | [] => by simp [firstDescent?]
  | [_] => by simp [firstDescent?]
  | previous :: next :: rest => by
      rw [firstDescent?]
      constructor
      · intro none
        split at none
        · next less =>
            have tail := firstDescent?_eq_none_iff.mp none
            refine List.pairwise_cons.mpr ⟨fun name member => ?_, tail⟩
            rcases List.mem_cons.mp member with rfl | member
            · exact less
            · exact lt_trans less ((List.pairwise_cons.mp tail).1 name member)
        · exact absurd none (by simp)
      · intro ascending
        have parts := List.pairwise_cons.mp ascending
        rw [if_pos (parts.1 next List.mem_cons_self)]
        exact firstDescent?_eq_none_iff.mpr parts.2

/-! ## What two lists have in common -/

private theorem commonAscending_nil : ∀ names : List Name, commonAscending names [] = []
  | [] => rfl
  | _ :: names => by
      rw [commonAscending]
      exact commonAscending_nil names

private theorem filter_dropWhile_lt {name : Name} {names : List Name}
    (above : ∀ listed ∈ names, name < listed) (others : List Name) :
    (others.dropWhile (· < name)).filter (· ∈ name :: names) =
      others.filter (· ∈ name :: names) := by
  have skipped : (others.takeWhile (· < name)).filter (· ∈ name :: names) = [] := by
    apply List.filter_eq_nil_iff.mpr
    intro other member
    have less : other < name := by simpa using List.mem_takeWhile_imp member
    simp only [List.mem_cons, decide_eq_true_eq, not_or]
    refine ⟨less.ne, fun listed => ?_⟩
    exact lt_irrefl _ (lt_trans less (above other listed))
  rw [← List.nil_append (List.filter _ (others.dropWhile _)), ← skipped,
    ← List.filter_append, List.takeWhile_append_dropWhile]

private theorem filter_mem_cons_of_lt {name : Name} {others : List Name}
    (beyond : ∀ other ∈ others, name < other) (names : List Name) :
    others.filter (· ∈ name :: names) = others.filter (· ∈ names) := by
  apply List.filter_congr
  intro other member
  have different := (beyond other member).ne'
  simp [different]

theorem commonAscending_eq_filter : ∀ {names others : List Name},
    Ascending names → Ascending others →
      commonAscending names others = others.filter (· ∈ names)
  | [], others, _, _ => by simp [commonAscending]
  | name :: names, others, ascending, othersAscending => by
      have tail := (List.pairwise_cons.mp ascending).2
      have keptAscending := othersAscending.sublist (List.dropWhile_sublist (· < name))
      rw [commonAscending, ← filter_dropWhile_lt (List.pairwise_cons.mp ascending).1]
      cases kept : others.dropWhile (· < name) with
      | nil => exact commonAscending_nil names
      | cons next later =>
          rw [kept] at keptAscending
          have beyondNext := (List.pairwise_cons.mp keptAscending).1
          have notSkipped : ¬next < name := by
            have first := List.head?_dropWhile_not (· < name) others
            rw [kept] at first
            simpa using first
          by_cases same : next = name
          · subst same
            have laterAscending := (List.pairwise_cons.mp keptAscending).2
            simp only [if_true, List.filter_cons, List.mem_cons_self, decide_true]
            rw [commonAscending_eq_filter tail laterAscending, ← filter_mem_cons_of_lt beyondNext]
          · have greater := lt_of_le_of_ne (not_lt.mp notSkipped) (Ne.symm same)
            simp only [if_neg same]
            rw [commonAscending_eq_filter tail keptAscending,
              filter_mem_cons_of_lt (Ascending.beyond keptAscending greater)]

end NameRegistry
