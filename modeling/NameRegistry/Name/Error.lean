import NameRegistry.Name.Basic

/-! # Errors

All of them are mistakes of the caller: a well-behaved compiler meets none.
-/

namespace NameRegistry

inductive NameError where
  /-- A value type was asked for under a name that is none. -/
  | unknownType (name : Name)
  /-- A label was required of a name that has none yet. -/
  | missingLabel (name : Name)
  /-- The arena or the label table has used up its 32-bit positions. -/
  | arenaFull (count : Nat)
  /-- The used names are not strictly ascending. -/
  | unsortedNames (previous next : Name)
  /-- The arena has no entry for the name. -/
  | outsideArena (name : Name)
deriving DecidableEq, Repr

namespace NameError

def message : NameError → String
  | unknownType name => s!"{name} is not a value type of this dialect"
  | missingLabel name => s!"{name} currently has no defined label"
  | arenaFull count => s!"name arena is full: {count} entries, max is {UInt32.size - 1}"
  | unsortedNames previous next =>
      s!"used names must be strictly ascending, but {previous} is followed by {next}"
  | outsideArena name => s!"{name} is outside the name arena"

end NameError

end NameRegistry
