import NameRegistry.Registry.Basic
import NameRegistry.Stored.Value

/-! # Stored tables

The stored form of names, of their states and of the tables that a registry
fixes during its setup.
-/

namespace NameRegistry

open Stored

namespace Name

def toValue (name : Name) : Value := .natural name.index

def ofValue? (value : Value) : Option Name := value.index?.map Name.mk

def optionToValue : Option Name → Value := .ofOption toValue

end Name

namespace LabelIndex

def toValue (position : LabelIndex) : Value := .natural position.index

def ofValue? (value : Value) : Option LabelIndex := value.index?.map LabelIndex.mk

end LabelIndex

namespace NameState

def toValue : NameState → Value
  | .defined label => .record [("Defined", label.toValue)]
  | .derived base => .record [("Derived", base.toValue)]

def ofValue? : Value → Option NameState
  | .record [("Defined", label)] => (LabelIndex.ofValue? label).map .defined
  | .record [("Derived", base)] => (Name.ofValue? base).map .derived
  | _ => none

end NameState

namespace Boundaries

def fieldNames : List String := ["begin_types", "end_types", "begin_builtins", "end_builtins"]

def toValue (boundaries : Boundaries) : Value :=
  .record
    [ ("begin_types", boundaries.beginTypes.toValue),
      ("end_types", boundaries.endTypes.toValue),
      ("begin_builtins", boundaries.beginBuiltins.toValue),
      ("end_builtins", boundaries.endBuiltins.toValue) ]

def ofValue? (value : Value) : Option Boundaries := do
  let field ← value.fields? fieldNames
  let name (label : String) : Option Name := (field label).bind Name.ofValue?
  return {
    beginTypes := ← name "begin_types"
    endTypes := ← name "end_types"
    beginBuiltins := ← name "begin_builtins"
    endBuiltins := ← name "end_builtins" }

end Boundaries

namespace PredefinedNames

def fieldNames : List String :=
  [ "empty", "verbatim", "bool_type", "default_type", "dataoffset", "datasize",
    "selfdestruct", "tstore", "memoryguard", "eq", "add", "sub", "placeholder_zero",
    "placeholder_one", "placeholder_thirty_two" ]

def toValue (names : PredefinedNames) : Value :=
  .record
    [ ("empty", names.empty.toValue),
      ("verbatim", names.verbatim.toValue),
      ("bool_type", names.boolType.toValue),
      ("default_type", names.defaultType.toValue),
      ("dataoffset", Name.optionToValue names.dataoffset),
      ("datasize", Name.optionToValue names.datasize),
      ("selfdestruct", Name.optionToValue names.selfdestruct),
      ("tstore", Name.optionToValue names.tstore),
      ("memoryguard", Name.optionToValue names.memoryguard),
      ("eq", Name.optionToValue names.eq),
      ("add", Name.optionToValue names.add),
      ("sub", Name.optionToValue names.sub),
      ("placeholder_zero", names.placeholderZero.toValue),
      ("placeholder_one", names.placeholderOne.toValue),
      ("placeholder_thirty_two", names.placeholderThirtyTwo.toValue) ]

def ofValue? (value : Value) : Option PredefinedNames := do
  let field ← value.fields? fieldNames
  let name (label : String) : Option Name := (field label).bind Name.ofValue?
  let identifier (label : String) : Option (Option Name) :=
    Value.optionalField? Name.ofValue? (field label)
  return {
    empty := ← name "empty"
    verbatim := ← name "verbatim"
    boolType := ← name "bool_type"
    defaultType := ← name "default_type"
    dataoffset := ← identifier "dataoffset"
    datasize := ← identifier "datasize"
    selfdestruct := ← identifier "selfdestruct"
    tstore := ← identifier "tstore"
    memoryguard := ← identifier "memoryguard"
    eq := ← identifier "eq"
    add := ← identifier "add"
    sub := ← identifier "sub"
    placeholderZero := ← name "placeholder_zero"
    placeholderOne := ← name "placeholder_one"
    placeholderThirtyTwo := ← name "placeholder_thirty_two" }

end PredefinedNames

namespace OperationRow

def toValue (row : OperationRow) : Value := .list (row.toList.map Name.optionToValue)

/-- A row has one entry for each operation. -/
def ofValue? (value : Value) : Option OperationRow := do
  let names ← (← value.list?).mapM (Value.optional? Name.ofValue?)
  if sized : names.toArray.size = 7 then some ⟨⟨names.toArray, sized⟩⟩ else none

end OperationRow

namespace OperationTable

def fieldNames : List String := ["boolean_negation", "typed"]

def toValue (table : OperationTable) : Value :=
  .record
    [ ("boolean_negation", Name.optionToValue table.negation),
      ("typed", .list (table.rows.map OperationRow.toValue)) ]

def ofValue? (value : Value) : Option OperationTable := do
  let field ← value.fields? fieldNames
  return {
    negation := ← Value.optionalField? Name.ofValue? (field "boolean_negation")
    rows := ← (← (← field "typed").list?).mapM OperationRow.ofValue? }

end OperationTable

end NameRegistry
