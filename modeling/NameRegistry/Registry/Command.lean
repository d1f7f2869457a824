import NameRegistry.Registry.Event
import NameRegistry.Registry.Setup

/-! # Commands

The changes that a registry offers, as values: a compilation is a sequence of
commands carried out one after the other.
-/

namespace NameRegistry.Registry

inductive Command where
  | intern (label : Label)
  | derive (name : Name)
  | verbatim (arity : Arity)
  | assignLabels (used : List Name) (illegal : List Label)
deriving DecidableEq, Repr

/-- Carries out a command and answers the name that it is about, if any. -/
def perform : Command → Update (Option Name)
  | .intern label => some <$> intern label
  | .derive name => some <$> derive name
  | .verbatim arity => internVerbatim? arity
  | .assignLabels used illegal => do
      let _ ← assignLabels used illegal
      return none

/-- What is reported when a command turns one state of a registry into
another. -/
def Command.events (command : Command) (earlier later : Registry) : List Event :=
  match command with
  | .assignLabels used illegal => earlier.labellingEvents used illegal
  | _ => mintedSince earlier later

end NameRegistry.Registry
