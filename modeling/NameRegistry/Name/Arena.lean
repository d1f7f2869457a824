import NameRegistry.Label.Table
import NameRegistry.Name.Error

/-! # Name arena

The entries of all names, and the labels that they carry. Entries are appended
and never removed. A name that is derived from another is linked to the defined
name at the end of that name's own links, so links stay one step long. The one
change made in place is to give an entry a label.
-/

namespace NameRegistry

structure Arena where
  entries : Array NameState := #[]
  labels : LabelTable := {}
deriving DecidableEq, Repr

namespace Arena

def size (arena : Arena) : Nat := arena.entries.size

/-- The name that the next entry will have. -/
def next (arena : Arena) : Name := ⟨arena.size⟩

def contains (arena : Arena) (name : Name) : Bool := name.index < arena.size

def names (arena : Arena) : List Name := (List.range arena.size).map Name.mk

def state? (arena : Arena) (name : Name) : Option NameState := arena.entries[name.index]?

/-- The label that a name carries itself. -/
def label? (arena : Arena) (name : Name) : Option Label :=
  match arena.state? name with
  | some (.defined position) => arena.labels.get? position
  | _ => none

/-! ## Links -/

/-- Follows at most `steps` entries, the last of which must be defined. -/
def follow (arena : Arena) : (steps : Nat) → Name → Option Name
  | 0, _ => none
  | steps + 1, name =>
      match arena.state? name with
      | none => none
      | some (.defined _) => some name
      | some (.derived base) => arena.follow steps base

/-- The nearest defined name that a name goes back to, or the name itself if it
is defined. Links that do not go round in circles visit each entry once at the
most. -/
def base? (arena : Arena) (name : Name) : Option Name := arena.follow arena.size name

def baseLabel? (arena : Arena) (name : Name) : Option Label :=
  (arena.base? name).bind arena.label?

/-! ## Names of labels -/

def lastDefined? (arena : Arena) (position : LabelIndex) : Option Name :=
  arena.names.reverse.find? fun name => arena.state? name = some (.defined position)

/-- A defined name that carries a label, and the label's position. Names and
labels are mostly interned side by side, so the name at the label's own
position is asked first; otherwise the last name that carries the label
answers. -/
def carrier? (arena : Arena) (label : Label) : Option (Name × LabelIndex) := do
  let position ← arena.labels.find? label
  if arena.state? ⟨position.index⟩ = some (.defined position) then
    some (⟨position.index⟩, position)
  else
    (arena.lastDefined? position).map (·, position)

/-! ## Changes -/

abbrev Update := EStateM NameError Arena

/-- One 32-bit number stays unused, so that the end of a full arena is a name
too. -/
def capacity : Nat := UInt32.size - 1

def labelCapacity : Nat := UInt32.size

def push (state : NameState) : Update Name := fun arena =>
  if arena.size < capacity then
    .ok arena.next { arena with entries := arena.entries.push state }
  else
    .error (.arenaFull arena.size) arena

/-- The position of a label, which is appended if it is new. -/
def internLabel (label : Label) : Update LabelIndex := fun arena =>
  match arena.labels.find? label with
  | some position => .ok position arena
  | none =>
      if arena.labels.size < labelCapacity then
        .ok ⟨arena.labels.size⟩ { arena with labels := arena.labels.push label }
      else
        .error (.arenaFull arena.labels.size) arena

/-- Appends a name that carries a label. -/
def define (label : Label) : Update Name := do
  push (.defined (← internLabel label))

/-- Appends a name that goes back to the same defined name as `name`. -/
def derive (name : Name) : Update Name := do
  match (← get).base? name with
  | some base => push (.derived base)
  | none => throw (.outsideArena name)

/-- Makes a name carry the label at a position. -/
def redefine (arena : Arena) (name : Name) (position : LabelIndex) : Arena :=
  { arena with entries := arena.entries.setIfInBounds name.index (.defined position) }

/-- Makes a name carry a label, which is interned if it is new. -/
def relabel (name : Name) (label : Label) : Update Unit := do
  let position ← internLabel label
  modify (·.redefine name position)

end Arena

end NameRegistry
