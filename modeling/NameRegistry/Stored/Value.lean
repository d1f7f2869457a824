/-! # Stored values

The data trees that tables of a registry are stored as, and how their parts are
read. A record is a list of fields by name, or the bare list of its fields.
-/

namespace NameRegistry.Stored

inductive Value where
  | null
  | flag (value : Bool)
  | natural (value : Nat)
  /-- A number that is negative or not a whole one. -/
  | otherNumber
  | text (value : String)
  | list (items : List Value)
  | record (fields : List (String × Value))
deriving Inhabited, Repr

namespace Value

/-- An index is a number of 32 bits. -/
def index? : Value → Option Nat
  | natural value => if value < UInt32.size then some value else none
  | _ => none

def list? : Value → Option (List Value)
  | list items => some items
  | _ => none

/-- The fields of a record. Fields that were not asked for are ignored. Without
field names, all fields must be there, in their order. -/
def fields? (names : List String) : Value → Option (String → Option Value)
  | record fields => some fun name => fields.lookup name
  | list items =>
      if items.length = names.length then some fun name => (names.zip items).lookup name
      else none
  | _ => none

/-- A value that may be null. -/
def optional? (read : Value → Option α) : Value → Option (Option α)
  | null => some none
  | value => (read value).map some

/-- A field that may be missing or null. -/
def optionalField? (read : Value → Option α) (field : Option Value) : Option (Option α) :=
  optional? read (field.getD null)

def ofOption (write : α → Value) : Option α → Value
  | none => null
  | some value => write value

end Value

end NameRegistry.Stored
