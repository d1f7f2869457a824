import NameRegistry.Label.Basic

/-! # Suffixed labels

A base label that is occupied is told apart by a counter: `base`, `base_1`,
`base_2` and so on. The counter restarts for every search, so the label found
depends on the base and on the occupied labels only.
-/

namespace NameRegistry.Suffix

def separator : Char := '_'

def candidate (base : Label) : Nat → Label
  | 0 => base
  | bump => base ++ separator.toString ++ toString bump

theorem candidate_injective (base : Label) : Function.Injective (candidate base) := by
  have differs (bump : Nat) : candidate base 0 ≠ candidate base (bump + 1) := by
    intro equal
    have lengths := congrArg String.length equal
    have separatorLength : separator.toString.length = 1 := rfl
    simp only [candidate, String.length_append, separatorLength] at lengths
    omega
  have digits {left right : Nat} (equal : toString left = toString right) : left = right := by
    have characters := congrArg String.toList equal
    simp only [Nat.toString_eq_repr, Nat.toList_repr] at characters
    have values := congrArg (fun digits => Nat.ofDigitChars 10 digits 0) characters
    simpa using values
  intro left right equal
  cases left with
  | zero =>
      cases right with
      | zero => rfl
      | succ right => exact absurd equal (differs right)
  | succ left =>
      cases right with
      | zero => exact absurd equal.symm (differs left)
      | succ right =>
          simp only [candidate, String.append_right_inj] at equal
          exact digits equal

/-- Among the first `occupied.length + 1` candidates one is free, because they
are pairwise different. -/
def bump (base : Label) (occupied : List Label) : Nat :=
  ((List.range (occupied.length + 1)).find? fun bump =>
    candidate base bump ∉ occupied).getD occupied.length

/-- The first candidate that is not occupied. -/
def free (base : Label) (occupied : List Label) : Label :=
  candidate base (bump base occupied)

end NameRegistry.Suffix
