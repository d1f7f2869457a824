import NameRegistry.Label.Verbatim
import NameRegistry.Dialect.Effects

/-! # Built-in operations

The definition of one built-in as its dialect gives it. Types are named by
label, and the empty label leaves a type unspecified.
-/

namespace NameRegistry

structure Builtin where
  name : Label
  parameters : List Label
  returns : List Label
  effects : Effects := .empty
deriving DecidableEq, Repr

namespace Builtin

/-- A definition that leaves all its types unspecified. -/
def untyped (name : Label) (arity : Arity) (effects : Effects := .empty) : Builtin where
  name
  parameters := List.replicate arity.parameters ""
  returns := List.replicate arity.returns ""
  effects

def arity (builtin : Builtin) : Arity :=
  ⟨builtin.parameters.length, builtin.returns.length⟩

/-- A label that only begins like a verbatim one belongs to an ordinary
built-in. -/
def isVerbatim (builtin : Builtin) : Bool := (Verbatim.ofLabel? builtin.name).isSome

/-- The verbatim built-in of an arity. Raw code may do anything. -/
def verbatim (arity : Arity) : Builtin :=
  untyped (Verbatim.label arity) arity (Effects.all \ Effects.calculation)

end Builtin

/-- The special operations that a value type may have, one built-in for each. -/
inductive TypeOperation where
  | discard
  | equality
  | memoryLoad
  | memoryStore
  | storageLoad
  | storageStore
  /-- Hashes a memory region into a value of the type. -/
  | hash
deriving DecidableEq, Repr

namespace TypeOperation

/-- In the order in which they are registered. -/
def all : List TypeOperation :=
  [discard, equality, memoryLoad, memoryStore, storageLoad, storageStore, hash]

def position : TypeOperation → Fin 7
  | discard => 0
  | equality => 1
  | memoryLoad => 2
  | memoryStore => 3
  | storageLoad => 4
  | storageStore => 5
  | hash => 6

def text : TypeOperation → String
  | discard => "Discard"
  | equality => "Equality"
  | memoryLoad => "MemoryLoad"
  | memoryStore => "MemoryStore"
  | storageLoad => "StorageLoad"
  | storageStore => "StorageStore"
  | hash => "Hash"

def ofText? (text : String) : Option TypeOperation := all.find? (·.text = text)

end TypeOperation

end NameRegistry
