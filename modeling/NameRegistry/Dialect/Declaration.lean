import NameRegistry.Dialect.Basic
import NameRegistry.Keyed

/-! # Dialects from declarations

A dialect can be put together from a sequence of declarations. Where two of
them speak of the same thing the last one counts, and every label of a built-in
is looked up in the finished tables, so it may be used before it is declared.
-/

namespace NameRegistry.Dialect

inductive Declaration where
  | valueType (label : Label)
  | boolType (label : Label)
  | defaultType (label : Label)
  /-- Takes the place of an earlier built-in of the same label. -/
  | builtin (definition : Builtin)
  /-- Reserves a word that is no built-in. -/
  | reserve (label : Label)
  | negation (builtin : Label)
  | operation (operation : TypeOperation) (type : Label) (builtin : Label)
  /-- Provides the verbatim built-ins of up to `limit` parameters and `limit`
  returns. -/
  | verbatim (limit : Nat)
deriving DecidableEq, Repr

/-- What a sequence of declarations adds up to. -/
structure Tables where
  types : List Label := []
  boolType : Label := ""
  defaultType : Label := ""
  /-- In the order in which their labels were first declared. -/
  builtins : List Builtin := []
  reserved : List Label := []
  negation : Option Label := none
  /-- The latest assignment comes first. -/
  operations : List ((TypeOperation × Label) × Label) := []
  verbatimLimit : Option Nat := none
deriving DecidableEq, Repr

namespace Tables

def declare (tables : Tables) : Declaration → Tables
  | .valueType label => { tables with types := tables.types ++ [label] }
  | .boolType label => { tables with boolType := label }
  | .defaultType label => { tables with defaultType := label }
  | .builtin definition =>
      { tables with builtins := Keyed.insert Builtin.name definition tables.builtins }
  | .reserve label => { tables with reserved := label :: tables.reserved }
  | .negation builtin => { tables with negation := some builtin }
  | .operation operation type builtin =>
      { tables with operations := ((operation, type), builtin) :: tables.operations }
  | .verbatim limit => { tables with verbatimLimit := some limit }

def ofDeclarations (declarations : List Declaration) : Tables :=
  declarations.foldl declare {}

def declaredBuiltin? (tables : Tables) (label : Label) : Option Builtin :=
  Keyed.find? Builtin.name label tables.builtins

/-- The member of the verbatim family with this label, if its arity is within
the limit. -/
def verbatimBuiltin? (tables : Tables) (label : Label) : Option Builtin := do
  let limit ← tables.verbatimLimit
  let arity ← Verbatim.ofLabel? label
  if arity.parameters ≤ limit ∧ arity.returns ≤ limit then
    some (Builtin.verbatim arity)
  else
    none

/-- A declared built-in comes before a verbatim one of the same label. -/
def builtin? (tables : Tables) (label : Label) : Option Builtin :=
  (tables.declaredBuiltin? label).or (tables.verbatimBuiltin? label)

/-- Every word that begins like a verbatim label is reserved, well formed or
not. -/
def reserves (tables : Tables) (label : Label) : Bool :=
  (tables.declaredBuiltin? label).isSome
    || Verbatim.family.toList.isPrefixOf label.toList
    || label ∈ tables.reserved

def operation? (tables : Tables) (operation : TypeOperation) (type : Label) :
    Option Builtin := do
  tables.builtin? (← tables.operations.lookup (operation, type))

def toDialect (tables : Tables) : Dialect where
  types := tables.types
  boolType := tables.boolType
  defaultType := tables.defaultType
  builtinLabels := tables.builtins.map (·.name)
  builtin? := tables.builtin?
  reserves := tables.reserves
  negation? := tables.negation.bind tables.builtin?
  operation? := tables.operation?

end Tables

def ofDeclarations (declarations : List Declaration) : Dialect :=
  (Tables.ofDeclarations declarations).toDialect

end NameRegistry.Dialect
