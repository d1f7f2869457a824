import Mathlib.Data.Finset.Card
import Mathlib.Data.List.Nodup
import Mathlib.Data.List.Perm.Subperm
import Mathlib.Data.Nat.Find
import NameRegistry.Label.Suffix

/-! # The search for a free label

The search ends at the first candidate that is not occupied, and which one that is
depends on what is occupied only.
-/

namespace NameRegistry.Suffix

private theorem exists_free (base : Label) (occupied : List Label) :
    ∃ bump < occupied.length + 1, candidate base bump ∉ occupied := by
  by_contra full
  simp only [not_exists, not_and, not_not] at full
  -- The candidates are pairwise different, so there is no room for all of them.
  have candidates := (List.nodup_range (n := occupied.length + 1)).map (candidate_injective base)
  have inside : (List.range (occupied.length + 1)).map (candidate base) ⊆ occupied := by
    intro label member
    rcases List.mem_map.mp member with ⟨bump, early, rfl⟩
    exact full bump (List.mem_range.mp early)
  have short := (candidates.subperm inside).length_le
  rw [List.length_map, List.length_range] at short
  omega

private structure IsFirstFree (base : Label) (occupied : List Label) (bump : Nat) : Prop where
  free : candidate base bump ∉ occupied
  first : ∀ earlier < bump, candidate base earlier ∈ occupied

private theorem IsFirstFree.unique {base : Label} {occupied : List Label} {left right : Nat}
    (isLeft : IsFirstFree base occupied left) (isRight : IsFirstFree base occupied right) :
    left = right := by
  rcases Nat.lt_trichotomy left right with less | same | greater
  · exact absurd (isRight.first left less) isLeft.free
  · exact same
  · exact absurd (isLeft.first right greater) isRight.free

private theorem isFirstFree_bump (base : Label) (occupied : List Label) :
    IsFirstFree base occupied (bump base occupied) := by
  unfold bump
  cases found : (List.range (occupied.length + 1)).find? fun bump =>
      candidate base bump ∉ occupied with
  | none =>
      rcases exists_free base occupied with ⟨bump, early, free⟩
      have occupied := List.find?_eq_none.mp found bump (List.mem_range.mpr early)
      exact absurd free (by simpa using occupied)
  | some bump =>
      rcases List.find?_range_eq_some.mp found with ⟨free, -, first⟩
      exact ⟨by simpa using free, by simpa using first⟩

private theorem free_eq {base : Label} {occupied : List Label} {bump : Nat}
    (isFirst : IsFirstFree base occupied bump) :
    free base occupied = candidate base bump :=
  congrArg (candidate base) ((isFirstFree_bump base occupied).unique isFirst)

/-! ## The least free candidate -/

theorem exists_not_mem (base : Label) (occupied : List Label) :
    ∃ bump, candidate base bump ∉ occupied := by
  rcases exists_free base occupied with ⟨bump, -, free⟩
  exact ⟨bump, free⟩

/-- The candidate with the smallest counter of all that are not occupied. -/
def leastFree (base : Label) (occupied : List Label) : Label :=
  candidate base (Nat.find (exists_not_mem base occupied))

theorem free_eq_leastFree (base : Label) (occupied : List Label) :
    free base occupied = leastFree base occupied := by
  apply free_eq
  constructor
  · exact Nat.find_spec (exists_not_mem base occupied)
  · intro earlier less
    exact not_not.mp (Nat.find_min (exists_not_mem base occupied) less)

/-! ## What is found -/

theorem free_not_mem (base : Label) (occupied : List Label) : free base occupied ∉ occupied :=
  (isFirstFree_bump base occupied).free

theorem free_congr (base : Label) {left right : List Label}
    (same : ∀ label, label ∈ left ↔ label ∈ right) : free base left = free base right := by
  apply free_eq
  have isFirst := isFirstFree_bump base right
  exact ⟨fun member => isFirst.free ((same _).mp member),
    fun earlier less => (same _).mpr (isFirst.first earlier less)⟩

theorem free_eq_of_subset (base : Label) {occupied wider : List Label}
    (subset : ∀ label ∈ occupied, label ∈ wider) (unhit : free base occupied ∉ wider) :
    free base wider = free base occupied := by
  have isFirst := isFirstFree_bump base occupied
  exact free_eq ⟨unhit, fun earlier less => subset _ (isFirst.first earlier less)⟩

theorem exists_bump_of_mem {base : Label} {occupied : List Label} (member : base ∈ occupied) :
    ∃ bump, free base occupied = candidate base (bump + 1) := by
  have isFirst := isFirstFree_bump base occupied
  cases same : bump base occupied with
  | zero =>
      rw [same] at isFirst
      exact absurd member isFirst.free
  | succ bump =>
      rw [same] at isFirst
      exact ⟨bump, free_eq isFirst⟩

/-! ## Counters on top of each other -/

private theorem length_lt_candidate (base : Label) (bump : Nat) :
    base.length < (candidate base (bump + 1)).length := by
  have separatorLength : separator.toString.length = 1 := rfl
  simp only [candidate, String.length_append, separatorLength]
  omega

private theorem separator_not_mem_toString (number : Nat) :
    separator ∉ (toString number).toList := by
  rw [Nat.toString_eq_repr, Nat.toList_repr]
  exact Nat.underscore_not_in_toDigits

theorem candidate_candidate_ne (base : Label) (inner outer bump : Nat) :
    candidate (candidate base (inner + 1)) (outer + 1) ≠ candidate base bump := by
  intro same
  cases bump with
  | zero =>
      have longer := Nat.lt_trans (length_lt_candidate base inner)
        (length_lt_candidate (candidate base (inner + 1)) outer)
      rw [same] at longer
      exact Nat.lt_irrefl _ longer
  | succ bump =>
      -- The second counter begins with a separator, and a number holds none.
      simp only [candidate, String.append_assoc, String.append_right_inj] at same
      have inside : separator ∈ (toString (bump + 1)).toList := by
        rw [← same]
        simp
      exact separator_not_mem_toString (bump + 1) inside

/-! ## The search, round by round -/

/-- How far the search has come: the label that it looks at, and the counter that is next. -/
structure Search where
  label : Label
  counter : Nat

namespace Search

/-- The search begins with the base label itself. -/
def start (base : Label) : Search := ⟨base, 1⟩

/-- A round gives up the label for the base label with the next counter. -/
def advance (base : Label) (search : Search) : Search where
  label := base ++ separator.toString ++ toString search.counter
  counter := search.counter + 1

/-- The search goes through so many rounds, each because its label is in use or illegal, and
ends with a label that is neither. -/
inductive Ends (base : Label) (used illegal : List Label) : Search → Nat → Label → Prop where
  | free {search : Search} (unused : search.label ∉ used) (legal : search.label ∉ illegal) :
      Ends base used illegal search 0 search.label
  | occupied {search : Search} {rounds : Nat} {label : Label}
      (taken : search.label ∈ used ∨ search.label ∈ illegal)
      (rest : Ends base used illegal (search.advance base) rounds label) :
      Ends base used illegal search (rounds + 1) label

variable {base : Label} {used illegal : List Label}

private theorem Ends.unique {search : Search} {rounds others : Nat} {label other : Label}
    (ends : Ends base used illegal search rounds label)
    (otherEnds : Ends base used illegal search others other) :
    rounds = others ∧ label = other := by
  induction ends generalizing others with
  | free unused legal =>
      cases otherEnds with
      | free => exact ⟨rfl, rfl⟩
      | occupied taken _ => exact absurd taken (not_or.mpr ⟨unused, legal⟩)
  | occupied taken _ induction =>
      cases otherEnds with
      | free unused legal => exact absurd taken (not_or.mpr ⟨unused, legal⟩)
      | occupied _ rest =>
          rcases induction rest with ⟨sameRounds, sameLabel⟩
          exact ⟨congrArg (· + 1) sameRounds, sameLabel⟩

private def after (base : Label) (rounds : Nat) : Search := ⟨candidate base rounds, rounds + 1⟩

private theorem advance_after (base : Label) (rounds : Nat) :
    (after base rounds).advance base = after base (rounds + 1) := rfl

private theorem ends_after {bump : Nat} (isFirst : IsFirstFree base (used ++ illegal) bump)
    (rounds left : Nat) (total : rounds + left = bump) :
    Ends base used illegal (after base rounds) left (candidate base bump) := by
  -- The counter only grows, so the induction is on the rounds that are left.
  induction left generalizing rounds with
  | zero =>
      have here : rounds = bump := total
      subst here
      have free := List.mem_append.not.mp isFirst.free
      exact .free (fun member => free (.inl member)) (fun member => free (.inr member))
  | succ left induction =>
      have early : rounds < bump := by omega
      have rest := induction (rounds + 1) (by omega)
      rw [← advance_after] at rest
      exact .occupied (List.mem_append.mp (isFirst.first rounds early)) rest

end Search

private theorem IsFirstFree.le_card {base : Label} {used illegal : List Label} {bump : Nat}
    (isFirst : IsFirstFree base (used ++ illegal) bump) :
    bump ≤ (used.toFinset ∪ illegal.toFinset).card := by
  -- The rounds before the first free candidate have different labels, all of them occupied.
  have inside : (Finset.range bump).image (candidate base) ⊆
      used.toFinset ∪ illegal.toFinset := by
    intro label member
    rcases Finset.mem_image.mp member with ⟨earlier, early, rfl⟩
    rw [← List.toFinset_append, List.mem_toFinset]
    exact isFirst.first earlier (Finset.mem_range.mp early)
  calc bump = ((Finset.range bump).image (candidate base)).card := by
        rw [Finset.card_image_of_injective _ (candidate_injective base), Finset.card_range]
    _ ≤ (used.toFinset ∪ illegal.toFinset).card := Finset.card_le_card inside

/-- The candidates of a base label are pairwise different, so the search always ends, and in
one way only. It takes no more rounds than there are different labels in use or illegal, and
ends with a label that is neither, before which every candidate is one of them. -/
theorem search_ends_within_occupied (base : Label) (used illegal : List Label) :
    Function.Injective (candidate base) ∧
    ∃ rounds ≤ (used.toFinset ∪ illegal.toFinset).card,
      (∀ ended label, Search.Ends base used illegal (.start base) ended label ↔
        ended = rounds ∧ label = candidate base rounds) ∧
      (candidate base rounds ∉ used ∧ candidate base rounds ∉ illegal) ∧
      (∀ earlier < rounds, candidate base earlier ∈ used ∨ candidate base earlier ∈ illegal) ∧
      free base (used ++ illegal) = candidate base rounds := by
  have isFirst := isFirstFree_bump base (used ++ illegal)
  have ends : Search.Ends base used illegal (.start base) (bump base (used ++ illegal))
      (candidate base (bump base (used ++ illegal))) :=
    Search.ends_after isFirst 0 _ (Nat.zero_add _)
  refine ⟨candidate_injective base, bump base (used ++ illegal), isFirst.le_card, ?_, ?_, ?_, rfl⟩
  · intro ended label
    constructor
    · exact fun otherwise => otherwise.unique ends
    · rintro ⟨rfl, rfl⟩
      exact ends
  · exact not_or.mp (List.mem_append.not.mp isFirst.free)
  · intro earlier less
    exact List.mem_append.mp (isFirst.first earlier less)

/-- Three of the four occupied labels are candidates of a base label that ends in a counter
itself. -/
theorem search_ends_after_three_rounds :
    Search.Ends "a_1" ["a_1_2", "a_1"] ["b", "a_1_1"] (.start "a_1") 3 "a_1_3" ∧
      (candidate "a_1" 2 ∈ ["a_1_2", "a_1"] ∨ candidate "a_1" 2 ∈ ["b", "a_1_1"]) := by
  rcases search_ends_within_occupied "a_1" ["a_1_2", "a_1"] ["b", "a_1_1"] with
    ⟨injective, rounds, -, ends, -, earlier, found⟩
  have third : free "a_1" (["a_1_2", "a_1"] ++ ["b", "a_1_1"]) = candidate "a_1" 3 := by
    decide +kernel
  have count : rounds = 3 := injective (found.symm.trans third)
  subst count
  exact ⟨(ends 3 "a_1_3").mpr ⟨rfl, by decide +kernel⟩, earlier 2 (by decide)⟩

end NameRegistry.Suffix
