import NameRegistry.Dialect.Basic
import NameRegistry.Keyed
import NameRegistry.Name.Arena
import NameRegistry.Registry.Predefined

/-! # Registries

A registry holds the names of one compilation for one dialect. Its first names
are, in this order: the empty name, the value types, the base of the verbatim
built-ins, the other built-ins, the identifiers with a fixed meaning and the
placeholders. Whether a name is a type or a built-in is a question of range.
-/

namespace NameRegistry

/-- A built-in under its name, with its types given by name. A type that is left
unspecified or is unknown becomes the empty name. -/
structure NamedBuiltin where
  name : Name
  parameters : List Name
  returns : List Name
  definition : Builtin
deriving DecidableEq, Repr

structure Registry where
  dialect : Dialect
  arena : Arena := {}
  boundaries : Boundaries := {}
  /-- The value types in the order of their declaration. -/
  types : List (Name × Label) := []
  /-- At most one for each name. -/
  builtins : List NamedBuiltin := []
  /-- The verbatim built-ins made so far, oldest first. -/
  instances : List (Arity × Name) := []
  predefined : PredefinedNames := {}
  operations : OperationTable := {}

namespace Registry

def size (registry : Registry) : Nat := registry.arena.size

def contains (registry : Registry) (name : Name) : Bool := registry.arena.contains name

def names (registry : Registry) : List Name := registry.arena.names

/-- The answer to a question about a name that the arena has to know. -/
def ask (registry : Registry) (name : Name) (question : Registry → Name → α) :
    Except NameError α :=
  if registry.contains name then .ok (question registry name) else .error (.outsideArena name)

abbrev Update := EStateM NameError Registry

/-- Carries a change of the arena out on the registry. -/
def onArena (update : Arena.Update α) : Update α := fun registry =>
  match update registry.arena with
  | .ok result arena => .ok result { registry with arena }
  | .error error arena => .error error { registry with arena }

end Registry

end NameRegistry
