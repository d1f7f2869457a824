/-! # Names

A name is a handle for an entry of the name arena, and a label index a handle
for a label that has been interned. Both count from zero and neither is ever
used a second time.
-/

namespace NameRegistry

structure Name where
  index : Nat
deriving DecidableEq, Ord, Repr

namespace Name

/-- The anonymous name. It is always the first entry of an arena. -/
def empty : Name := ⟨0⟩

instance : Inhabited Name := ⟨empty⟩

instance : LT Name := ⟨fun left right => left.index < right.index⟩

instance : LE Name := ⟨fun left right => left.index ≤ right.index⟩

instance (left right : Name) : Decidable (left < right) :=
  inferInstanceAs (Decidable (left.index < right.index))

instance (left right : Name) : Decidable (left ≤ right) :=
  inferInstanceAs (Decidable (left.index ≤ right.index))

instance : ToString Name := ⟨fun name => s!"Name({name.index})"⟩

theorem lt_def {left right : Name} : left < right ↔ left.index < right.index := Iff.rfl

theorem le_def {left right : Name} : left ≤ right ↔ left.index ≤ right.index := Iff.rfl

end Name

structure LabelIndex where
  index : Nat
deriving DecidableEq, Repr

namespace LabelIndex

/-- Where the empty label is kept. -/
def empty : LabelIndex := ⟨0⟩

instance : Inhabited LabelIndex := ⟨empty⟩

instance : ToString LabelIndex := ⟨fun position => s!"LabelIndex({position.index})"⟩

end LabelIndex

/-- What an arena knows about one of its names. -/
inductive NameState where
  /-- The name carries the label at this position. Several names may share it. -/
  | defined (label : LabelIndex)
  /-- The name has no label of its own yet and stands for a variant of `base`. -/
  | derived (base : Name)
deriving DecidableEq, Repr

namespace NameState

instance : ToString NameState where
  toString
    | .defined label => s!"Defined({label})"
    | .derived base => s!"Derived({base})"

end NameState

end NameRegistry
