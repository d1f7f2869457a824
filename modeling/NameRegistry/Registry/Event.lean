import NameRegistry.Registry.FinalLabels

/-! # Events

What a registry reports about its work. Two kinds of work open a span: setting
the registry up and assigning final labels.
-/

namespace NameRegistry.Registry

inductive Event where
  | setupBegan (types : Nat)
  | minted (name : Name) (arity : Arity)
  | registered (types builtins names : Nat)
  | labellingBegan (used illegal : Nat)
  | relabelled (change : Relabelling)
  | labelled (renamed aliased : Nat)
deriving DecidableEq, Repr

namespace Event

inductive Level where
  | debug
  | trace
deriving DecidableEq, Repr

/-- Work as a whole is reported at a coarser level than single names. -/
def level : Event → Level
  | minted .. | relabelled .. => .trace
  | _ => .debug

def opensSpan : Event → Bool
  | setupBegan .. | labellingBegan .. => true
  | _ => false

def text : Event → String
  | setupBegan .. => "try_new"
  | minted .. => "minted verbatim built-in"
  | registered .. => "name repository registered dialect"
  | labellingBegan .. => "try_generate_labels"
  | relabelled (.generated ..) => "generated label"
  | relabelled (.aliased ..) => "aliased to existing label"
  | labelled .. => "labels generated"

end Event

/-! ## Reports -/

/-- Verbatim built-ins are recorded in the order in which they are made, so the
new ones are those that come after the ones there before. -/
def mintedSince (earlier later : Registry) : List Event :=
  (later.instances.drop earlier.instances.length).map fun (arity, name) => .minted name arity

def setupEvents (dialect : Dialect) (registry : Registry) : List Event :=
  [.setupBegan dialect.types.length]
    ++ mintedSince { dialect } registry
    ++ [.registered registry.typeCount registry.builtins.length registry.size]

/-- The report on an assignment of final labels. It has no end if the
assignment fails. -/
def labellingEvents (registry : Registry) (used : List Name) (illegal : List Label) :
    List Event :=
  let began := .labellingBegan used.length illegal.eraseDups.length
  match registry.chooseLabels used illegal with
  | .ok { changes, .. } =>
      let renamed := changes.countP Relabelling.isGenerated
      [began] ++ changes.map .relabelled ++ [.labelled renamed (changes.length - renamed)]
  | .error _ => [began]

end NameRegistry.Registry
