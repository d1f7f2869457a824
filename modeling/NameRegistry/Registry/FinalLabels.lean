import NameRegistry.Label.Suffix
import NameRegistry.Registry.Query

/-! # Final labels

Before a program is written out, all of its used names get labels that differ
from each other and from the labels of types and built-ins, and that are not
among a given set of illegal ones. A label that is already fit is left alone.
Every other name gets its base label, with the smallest counter that makes it
fit.

The used names are looked through twice. The first time nothing is changed: it
is found out who keeps a label, and every error arises here. The second time
the remaining names are given labels one by one, in the order of the arena. If
a defined name carries the chosen label already, its position is shared at
once; a label that nobody carries is interned when all of them are chosen.
-/

namespace NameRegistry

/-! ## Ascending names -/

/-- The first two neighbours that are out of order. -/
def firstDescent? : List Name → Option (Name × Name)
  | previous :: next :: rest =>
      if previous < next then firstDescent? (next :: rest) else some (previous, next)
  | _ => none

/-- The names of the first list that occur in the second. Both are ascending, so
one walk over the two of them is enough. -/
def commonAscending : List Name → List Name → List Name
  | [], _ => []
  | name :: names, others =>
      match others.dropWhile (· < name) with
      | [] => commonAscending names []
      | next :: later =>
          if next = name then name :: commonAscending names later
          else commonAscending names (next :: later)

namespace Registry

/-! ## Who keeps a label -/

/-- A defined name keeps its label if it can, and so does a verbatim built-in. -/
def ownsLabel (registry : Registry) (name : Name) : Bool :=
  !registry.isDerived name || registry.isVerbatim name

/-- The labels that can never be given to another name. -/
def fixedLabels (registry : Registry) : List Label :=
  (List.range registry.boundaries.endBuiltins.index).filterMap fun index =>
    registry.label? ⟨index⟩

structure Review where
  /-- The labels in use. -/
  taken : List Label
  /-- The names whose label is illegal or in use by another name. -/
  clashing : List Name := []
deriving DecidableEq, Repr

def reviewName (registry : Registry) (illegal : List Label) (review : Review) (name : Name) :
    Except NameError Review :=
  if registry.ownsLabel name then do
    let label ← registry.requireLabel name
    return {
      taken := label :: review.taken
      clashing :=
        if label ∈ review.taken ∨ label ∈ illegal then name :: review.clashing
        else review.clashing }
  else
    .ok review

def review (registry : Registry) (used : List Name) (illegal : List Label) :
    Except NameError Review :=
  match firstDescent? used with
  | some (previous, next) => .error (.unsortedNames previous next)
  | none => used.foldlM (registry.reviewName illegal) { taken := registry.fixedLabels }

/-! ## Choosing labels -/

inductive Relabelling where
  /-- The name gets a label that no defined name carries. -/
  | generated (name : Name) (label : Label)
  /-- The name shares the label that `existing` carries. -/
  | aliased (name existing : Name) (label : Label)
deriving DecidableEq, Repr

def Relabelling.isGenerated : Relabelling → Bool
  | .generated .. => true
  | .aliased .. => false

/-- How far the second walk has come. -/
structure Progress where
  registry : Registry
  taken : List Label
  changes : List Relabelling := []

/-- Every name after the built-ins, in the order of the arena. -/
def openNames (registry : Registry) : List Name :=
  let start := registry.boundaries.endBuiltins.index
  (List.range' start (registry.size - start)).map Name.mk

/-- A derived name needs a label, and so does a name whose own label clashes. -/
def Progress.needsLabel (progress : Progress) (clashing : List Name) (name : Name) : Bool :=
  !progress.registry.ownsLabel name || name ∈ clashing

/-- Gives a name the first free label of its base. -/
def Progress.relabel (progress : Progress) (illegal : List Label) (name : Name)
    (base : Label) : Progress :=
  let { registry, taken, changes } := progress
  let label := Suffix.free base (taken ++ illegal)
  match registry.arena.carrier? label with
  | some (existing, position) =>
      { registry := { registry with arena := registry.arena.redefine name position }
        taken := label :: taken
        changes := changes ++ [.aliased name existing label] }
  | none =>
      { registry
        taken := label :: taken
        changes := changes ++ [.generated name label] }

/-- Gives a name a label if it needs one. Every name of the arena has a base
label. -/
def Progress.visit (illegal : List Label) (clashing : List Name) (progress : Progress)
    (name : Name) : Progress :=
  if progress.needsLabel clashing name then
    match progress.registry.baseLabel? name with
    | some base => progress.relabel illegal name base
    | none => progress
  else
    progress

def chooseLabels (registry : Registry) (used : List Name) (illegal : List Label) :
    Except NameError Progress := do
  let review ← registry.review used illegal
  return (commonAscending registry.openNames used).foldl
    (Progress.visit illegal review.clashing) { registry, taken := review.taken }

/-! ## The whole assignment -/

def install : Relabelling → Update Unit
  | .generated name label => onArena (Arena.relabel name label)
  | .aliased .. => return

/-- Gives every used name its final label, and answers what was changed. On an
error nothing is changed, unless the label table is full. -/
def assignLabels (used : List Name) (illegal : List Label) : Update (List Relabelling) := do
  match (← get).chooseLabels used illegal with
  | .ok progress => do
      set progress.registry
      progress.changes.forM install
      return progress.changes
  | .error error => throw error

end Registry

end NameRegistry
