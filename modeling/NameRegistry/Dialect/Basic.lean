import NameRegistry.Dialect.Builtin

/-! # Dialects

A dialect describes one virtual machine target: its value types, its built-ins,
the words it reserves and the built-ins that carry out the special operations.
Everything else in the library talks to a target through this view.
-/

namespace NameRegistry

structure Dialect where
  /-- Value types in the order of their declaration. An empty label among them
  is the default, unnamed type. -/
  types : List Label
  /-- Empty if the dialect is untyped. -/
  boolType : Label
  /-- Empty if the dialect is untyped. -/
  defaultType : Label
  /-- The enumerated built-ins. The verbatim family is not among them, its
  members are found through `builtin?` alone. -/
  builtinLabels : List Label
  builtin? : Label → Option Builtin
  /-- Whether a label may not be used as an identifier of a program. -/
  reserves : Label → Bool
  negation? : Option Builtin
  /-- The built-in that carries out an operation for the type with a label. A
  dialect without types answers for the empty label. -/
  operation? : TypeOperation → Label → Option Builtin

namespace Dialect

/-- The definition found under a verbatim label, if it is a verbatim one. -/
def verbatim? (dialect : Dialect) (arity : Arity) : Option Builtin :=
  (dialect.builtin? (Verbatim.label arity)).filter Builtin.isVerbatim

end Dialect

end NameRegistry
