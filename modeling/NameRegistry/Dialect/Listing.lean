import NameRegistry.Dialect.Basic

/-! # Dialects from listings

A listing states the answers of a dialect one by one. Nothing ties the answers
to each other: a label may be enumerated twice or without a definition, and a
definition may be found under a label that is not its own name.
-/

namespace NameRegistry.Dialect

structure Listing where
  types : List Label := []
  boolType : Label := ""
  defaultType : Label := ""
  builtinLabels : List Label := []
  definitions : List (Label × Builtin) := []
  reserved : List Label := []
  negation : Option Builtin := none
  operations : List ((TypeOperation × Label) × Builtin) := []
deriving DecidableEq, Repr

/-- The first definition of a label and the first assignment of an operation
count. -/
def Listing.toDialect (listing : Listing) : Dialect where
  types := listing.types
  boolType := listing.boolType
  defaultType := listing.defaultType
  builtinLabels := listing.builtinLabels
  builtin? label := listing.definitions.lookup label
  reserves label := label ∈ listing.reserved
  negation? := listing.negation
  operation? operation type := listing.operations.lookup (operation, type)

end NameRegistry.Dialect
