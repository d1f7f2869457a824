import NameRegistry.Dialect.Builtin
import NameRegistry.Name.Basic

/-! # Predefined names

What a registry fixes while it takes in its dialect and never changes again:
the ranges of types and built-ins, the names with a fixed meaning, and the
built-ins that carry out the special operations.
-/

namespace NameRegistry

/-! ## Ranges -/

/-- The types and the built-ins are two half-open ranges of names. -/
structure Boundaries where
  beginTypes : Name := .empty
  endTypes : Name := .empty
  beginBuiltins : Name := .empty
  endBuiltins : Name := .empty
deriving DecidableEq, Repr

namespace Boundaries

def containsType (boundaries : Boundaries) (name : Name) : Bool :=
  boundaries.beginTypes ≤ name ∧ name < boundaries.endTypes

def containsBuiltin (boundaries : Boundaries) (name : Name) : Bool :=
  boundaries.beginBuiltins ≤ name ∧ name < boundaries.endBuiltins

def typeCount (boundaries : Boundaries) : Nat :=
  boundaries.endTypes.index - boundaries.beginTypes.index

end Boundaries

/-! ## Names with a fixed meaning -/

/-- The labels of these names hold a space, so no identifier of a program can be
equal to one. -/
def verbatimBaseLabel : Label := "@ verbatim"

def placeholderLabel (constant : Nat) : Label := "@ " ++ toString constant

/-- An identifier is missing if the dialect neither defines nor reserves it. -/
structure PredefinedNames where
  empty : Name := .empty
  /-- Every verbatim built-in is derived from this name. -/
  verbatim : Name := .empty
  boolType : Name := .empty
  defaultType : Name := .empty
  dataoffset : Option Name := none
  datasize : Option Name := none
  selfdestruct : Option Name := none
  tstore : Option Name := none
  memoryguard : Option Name := none
  eq : Option Name := none
  add : Option Name := none
  sub : Option Name := none
  placeholderZero : Name := .empty
  placeholderOne : Name := .empty
  placeholderThirtyTwo : Name := .empty
deriving DecidableEq, Repr

/-! ## Special operations -/

/-- The built-ins of the special operations of one type. -/
structure OperationRow where
  names : Vector (Option Name) 7
deriving DecidableEq, Repr

namespace OperationRow

def get (row : OperationRow) (operation : TypeOperation) : Option Name :=
  row.names[operation.position]

def ofFunction (name : TypeOperation → Option Name) : OperationRow :=
  ⟨#v[name .discard, name .equality, name .memoryLoad, name .memoryStore,
    name .storageLoad, name .storageStore, name .hash]⟩

def toList (row : OperationRow) : List (Option Name) := TypeOperation.all.map row.get

@[simp] theorem get_ofFunction (name : TypeOperation → Option Name)
    (operation : TypeOperation) : (ofFunction name).get operation = name operation := by
  cases operation <;> rfl

end OperationRow

/-- The rows follow the value types. A dialect without types has a single row,
for the unnamed type. -/
structure OperationTable where
  negation : Option Name := none
  rows : List OperationRow := []
deriving DecidableEq, Repr

namespace OperationTable

def get? (table : OperationTable) (operation : TypeOperation) (typeIndex : Nat) :
    Option Name := do
  (← table.rows[typeIndex]?).get operation

end OperationTable

end NameRegistry
