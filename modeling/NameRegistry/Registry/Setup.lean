import NameRegistry.Registry.Intern

/-! # Setting up a registry

A registry takes in its dialect once, in a fixed order. The range of built-ins
is empty until all of them are in, so no label is found there before that.
-/

namespace NameRegistry.Registry

/-! ## Types -/

def registerType (label : Label) : Update Unit := do
  let name ← if label = "" then pure Name.empty else intern label
  modify fun registry => { registry with types := registry.types ++ [(name, label)] }

/-- The range of types begins with the empty name if one of them is unnamed. -/
def registerTypes : Update Unit := do
  let { dialect, .. } ← get
  modify fun registry =>
    { registry with
      boundaries.beginTypes := if "" ∈ dialect.types then .empty else ⟨1⟩ }
  dialect.types.forM registerType
  modify fun registry => { registry with boundaries.endTypes := registry.arena.next }

/-! ## Built-ins -/

/-- A built-in without a label is left out, and one without a definition gets a
name but no record. -/
def registerBuiltin (label : Label) : Update Unit := do
  if label ≠ "" then
    let name ← intern label
    match (← get).dialect.builtin? label with
    | some definition => recordBuiltin name definition
    | none => return

def registerBuiltins : Update Unit := do
  let { dialect, .. } ← get
  modify fun registry => { registry with boundaries.beginBuiltins := registry.arena.next }
  let verbatim ← intern verbatimBaseLabel
  modify fun registry => { registry with predefined.verbatim := verbatim }
  dialect.builtinLabels.forM registerBuiltin
  modify fun registry => { registry with boundaries.endBuiltins := registry.arena.next }

/-! ## Identifiers and special operations -/

/-- The name of an identifier that the dialect defines or reserves. -/
def registerIdentifier (label : Label) : Update (Option Name) := do
  let registry ← get
  if label ∈ registry.dialect.builtinLabels then
    return registry.findBuiltin? label
  else if registry.dialect.reserves label then
    some <$> intern label
  else
    return none

def registerIdentifiers : Update Unit := do
  modify fun registry =>
    { registry with
      predefined.boolType := registry.typeName registry.dialect.boolType
      predefined.defaultType := registry.typeName registry.dialect.defaultType }
  let dataoffset ← registerIdentifier "dataoffset"
  let datasize ← registerIdentifier "datasize"
  let selfdestruct ← registerIdentifier "selfdestruct"
  let tstore ← registerIdentifier "tstore"
  let memoryguard ← registerIdentifier "memoryguard"
  let eq ← registerIdentifier "eq"
  let add ← registerIdentifier "add"
  let sub ← registerIdentifier "sub"
  modify fun registry =>
    { registry with
      predefined :=
        { registry.predefined with
          dataoffset, datasize, selfdestruct, tstore, memoryguard, eq, add, sub } }

/-- The name under which a definition of the dialect is enumerated. -/
def definitionName? (registry : Registry) (definition : Option Builtin) : Option Name :=
  definition.bind fun builtin => registry.findBuiltin? builtin.name

/-- The labels that the rows of the operation table stand for. -/
def rowLabels (registry : Registry) : List Label :=
  if registry.types.isEmpty then [""] else registry.types.map (·.2)

def operationTable (registry : Registry) : OperationTable where
  negation := registry.definitionName? registry.dialect.negation?
  rows := registry.rowLabels.map fun label =>
    .ofFunction fun operation =>
      registry.definitionName? (registry.dialect.operation? operation label)

def registerOperations : Update Unit :=
  modify fun registry => { registry with operations := registry.operationTable }

/-! ## The whole setup -/

def registerPlaceholders : Update Unit := do
  let zero ← intern (placeholderLabel 0)
  let one ← intern (placeholderLabel 1)
  let thirtyTwo ← intern (placeholderLabel 32)
  modify fun registry =>
    { registry with
      predefined.placeholderZero := zero
      predefined.placeholderOne := one
      predefined.placeholderThirtyTwo := thirtyTwo }

def setup : Update Unit := do
  let empty ← intern ""
  modify fun registry => { registry with predefined.empty := empty }
  registerTypes
  registerBuiltins
  registerIdentifiers
  registerOperations
  registerPlaceholders

def ofDialect (dialect : Dialect) : Except NameError Registry :=
  match setup { dialect } with
  | .ok _ registry => .ok registry
  | .error error _ => .error error

end NameRegistry.Registry
