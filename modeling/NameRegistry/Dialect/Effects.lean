/-! # Side effects

What running a built-in may do beside computing its results: a set of seven
independent flags, read from and written as a bit pattern.
-/

namespace NameRegistry

inductive Effect where
  /-- The results depend on the arguments alone. -/
  | movable
  /-- The operation can be dropped if its results are unused. -/
  | removable
  | readsMemory
  | writesMemory
  | readsStorage
  | writesStorage
  /-- The operation ends execution. -/
  | terminates
deriving DecidableEq, Repr

namespace Effect

/-- In ascending order of their bits. -/
def all : List Effect :=
  [movable, removable, readsMemory, writesMemory, readsStorage, writesStorage, terminates]

def bit : Effect → Nat
  | movable => 0
  | removable => 1
  | readsMemory => 2
  | writesMemory => 3
  | readsStorage => 4
  | writesStorage => 5
  | terminates => 6

def text : Effect → String
  | movable => "MOVABLE"
  | removable => "CAN_BE_REMOVED"
  | readsMemory => "READS_MEMORY"
  | writesMemory => "WRITES_MEMORY"
  | readsStorage => "READS_STORAGE"
  | writesStorage => "WRITES_STORAGE"
  | terminates => "TERMINATES"

end Effect

structure Effects where
  flags : BitVec 7
deriving DecidableEq, Repr

namespace Effects

def empty : Effects := ⟨0⟩

def all : Effects := ⟨BitVec.allOnes 7⟩

def single (effect : Effect) : Effects := ⟨BitVec.twoPow 7 effect.bit⟩

def union (left right : Effects) : Effects := ⟨left.flags ||| right.flags⟩

def inter (left right : Effects) : Effects := ⟨left.flags &&& right.flags⟩

def complement (effects : Effects) : Effects := ⟨~~~effects.flags⟩

def diff (left right : Effects) : Effects := ⟨left.flags &&& ~~~right.flags⟩

instance : Union Effects := ⟨union⟩

instance : Inter Effects := ⟨inter⟩

instance : SDiff Effects := ⟨diff⟩

def has (effects : Effects) (effect : Effect) : Bool := effects.flags.getLsbD effect.bit

def contains (outer inner : Effects) : Bool := outer ∩ inner = inner

def intersects (left right : Effects) : Bool := left ∩ right ≠ empty

def toList (effects : Effects) : List Effect := Effect.all.filter effects.has

def ofList (effects : List Effect) : Effects :=
  effects.foldl (fun collected effect => collected ∪ single effect) empty

/-- Pure arithmetic and comparison. -/
def calculation : Effects := ofList [.movable, .removable]

def toNat (effects : Effects) : Nat := effects.flags.toNat

/-- Bits that stand for no effect are dropped. -/
def ofNat (bits : Nat) : Effects := ⟨BitVec.ofNat 7 bits⟩

/-- Bits that stand for no effect are refused. -/
def ofNat? (bits : Nat) : Option Effects :=
  if (ofNat bits).toNat = bits then some (ofNat bits) else none

end Effects

end NameRegistry
