/-! # Labels

A label is the text that a type, a built-in or a name is written as. The empty
label stands for the unnamed type and for the anonymous name.
-/

namespace NameRegistry

abbrev Label := String

end NameRegistry
