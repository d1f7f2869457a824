import NameRegistry.Registry.Query

/-! # Interning

How names come into being: for a label, from another name, or for an arity of
the verbatim family. None of this changes what is known of the names that are
already there.
-/

namespace NameRegistry.Registry

/-- A built-in of the dialect in terms of names. -/
def nameBuiltin (registry : Registry) (name : Name) (definition : Builtin) : NamedBuiltin where
  name
  parameters := definition.parameters.map registry.typeName
  returns := definition.returns.map registry.typeName
  definition

def recordBuiltin (name : Name) (definition : Builtin) : Update Unit :=
  modify fun registry =>
    let record := registry.nameBuiltin name definition
    { registry with builtins := Keyed.insert NamedBuiltin.name record registry.builtins }

/-- The name derived from the verbatim base for the arity of a definition. It is
made once, when it is first asked for. -/
def verbatimInstance (definition : Builtin) : Update Name := do
  let registry ← get
  match registry.instances.lookup definition.arity with
  | some name => return name
  | none => do
      let name ← onArena (Arena.derive registry.predefined.verbatim)
      recordBuiltin name definition
      modify fun registry =>
        { registry with instances := registry.instances ++ [(definition.arity, name)] }
      return name

/-- The name of a label. Labels of the verbatim family never get text of their
own, and labels of other built-ins belong to the range of built-ins; every
other label belongs to the name that carries it. A label without a name gets a
new one. -/
def intern (label : Label) : Update Name := do
  let registry ← get
  match registry.dialect.builtin? label with
  | some definition =>
      if definition.isVerbatim then
        verbatimInstance definition
      else
        match registry.findBuiltin? label with
        | some name => return name
        | none => onArena (Arena.define label)
  | none =>
      match registry.find? label with
      | some name => return name
      | none => onArena (Arena.define label)

/-- A new variant of a name, without a label. -/
def derive (name : Name) : Update Name := onArena (Arena.derive name)

/-- The name of the verbatim built-in of an arity, if the dialect has one. -/
def internVerbatim? (arity : Arity) : Update (Option Name) := do
  match (← get).dialect.verbatim? arity with
  | some definition => some <$> verbatimInstance definition
  | none => return none

end NameRegistry.Registry
