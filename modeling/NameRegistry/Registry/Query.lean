import NameRegistry.Registry.Basic

/-! # Queries

What can be asked of a registry without changing it.
-/

namespace NameRegistry.Registry

/-! ## Identity -/

def state? (registry : Registry) (name : Name) : Option NameState :=
  registry.arena.state? name

def base? (registry : Registry) (name : Name) : Option Name := registry.arena.base? name

def isDerived (registry : Registry) (name : Name) : Bool :=
  match registry.state? name with
  | some (.derived _) => true
  | _ => false

def isBuiltin (registry : Registry) (name : Name) : Bool :=
  (registry.base? name).any registry.boundaries.containsBuiltin

def isType (registry : Registry) (name : Name) : Bool :=
  (registry.base? name).any registry.boundaries.containsType

def isVerbatim (registry : Registry) (name : Name) : Bool :=
  registry.base? name = some registry.predefined.verbatim

/-! ## Built-ins by name -/

def builtin? (registry : Registry) (name : Name) : Option NamedBuiltin :=
  Keyed.find? NamedBuiltin.name name registry.builtins

def negation? (registry : Registry) : Option NamedBuiltin :=
  registry.operations.negation.bind registry.builtin?

/-! ## Labels -/

/-- A verbatim built-in has the label that the dialect gives its arity. Any
other derived name has no label until one is assigned. -/
def label? (registry : Registry) (name : Name) : Option Label :=
  match registry.arena.label? name with
  | some label => some label
  | none =>
      if registry.isVerbatim name then
        (registry.builtin? name).map (·.definition.name)
      else
        none

def requireLabel (registry : Registry) (name : Name) : Except NameError Label :=
  if registry.contains name then
    match registry.label? name with
    | some label => .ok label
    | none => .error (.missingLabel name)
  else
    .error (.outsideArena name)

def baseLabel? (registry : Registry) (name : Name) : Option Label :=
  registry.arena.baseLabel? name

/-- A defined name that carries a label. -/
def find? (registry : Registry) (label : Label) : Option Name :=
  (registry.arena.carrier? label).map (·.1)

/-- All names that have a label, with it. -/
def labels (registry : Registry) : List (Name × Label) :=
  registry.names.filterMap fun name => (registry.label? name).map (name, ·)

/-! ## Built-ins by label -/

def builtinNames (registry : Registry) : List Name :=
  (List.range' registry.boundaries.beginBuiltins.index
    (registry.boundaries.endBuiltins.index - registry.boundaries.beginBuiltins.index)).map
    Name.mk

/-- The first name of the built-in range with a label. -/
def findBuiltin? (registry : Registry) (label : Label) : Option Name :=
  registry.builtinNames.find? fun name => registry.label? name = some label

/-! ## Types -/

/-- The first value type declared with a label. -/
def findType? (registry : Registry) (label : Label) : Option Name :=
  (registry.types.find? (·.2 = label)).map (·.1)

/-- The name that stands for a type label in signatures. -/
def typeName (registry : Registry) (label : Label) : Name :=
  (registry.findType? label).getD .empty

/-- The position of a type among the value types. A dialect without value types
has a single implicit one. -/
def typeIndex (registry : Registry) (type : Name) : Except NameError Nat :=
  if registry.types.isEmpty then
    .ok 0
  else
    match registry.types.findIdx? (·.1 = type) with
    | some position => .ok position
    | none => .error (.unknownType type)

def typeCount (registry : Registry) : Nat := registry.boundaries.typeCount

/-! ## Special operations -/

/-- The name of the built-in that carries out an operation for a type. -/
def operationName (registry : Registry) (operation : TypeOperation) (type : Name) :
    Except NameError (Option Name) :=
  (registry.typeIndex type).map (registry.operations.get? operation)

/-- The built-in that carries out an operation for a type. -/
def operation (registry : Registry) (operation : TypeOperation) (type : Name) :
    Except NameError (Option NamedBuiltin) :=
  (registry.operationName operation type).map (·.bind registry.builtin?)

end NameRegistry.Registry
