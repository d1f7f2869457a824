import NameRegistry.Dialect.Declaration

/-! # Ready dialects

Two dialects in the style of the Ethereum virtual machine: one where every
value has the single unnamed type, and one with explicit types for words and
truth values.
-/

namespace NameRegistry.Dialect

namespace Presets

def readsMemory : Effects := .ofList [.readsMemory, .removable]

def readsStorage : Effects := .ofList [.readsStorage, .removable]

def writesMemory : Effects := .single .writesMemory

def writesStorage : Effects := .single .writesStorage

def terminates : Effects := .single .terminates

def untyped (name : Label) (parameters returns : Nat) (effects : Effects) : Declaration :=
  .builtin (.untyped name ⟨parameters, returns⟩ effects)

def signature (name : Label) (parameters returns : List Label) (effects : Effects) :
    Declaration :=
  .builtin { name, parameters, returns, effects }

def evmDeclarations : List Declaration :=
  [ untyped "stop" 0 0 terminates,
    untyped "add" 2 1 .calculation,
    untyped "sub" 2 1 .calculation,
    untyped "mul" 2 1 .calculation,
    untyped "div" 2 1 .calculation,
    untyped "mod" 2 1 .calculation,
    untyped "lt" 2 1 .calculation,
    untyped "gt" 2 1 .calculation,
    untyped "eq" 2 1 .calculation,
    untyped "iszero" 1 1 .calculation,
    untyped "and" 2 1 .calculation,
    untyped "or" 2 1 .calculation,
    untyped "xor" 2 1 .calculation,
    untyped "not" 1 1 .calculation,
    untyped "shl" 2 1 .calculation,
    untyped "shr" 2 1 .calculation,
    untyped "keccak256" 2 1 readsMemory,
    untyped "pop" 1 0 .calculation,
    untyped "mload" 1 1 readsMemory,
    untyped "mstore" 2 0 writesMemory,
    untyped "sload" 1 1 readsStorage,
    untyped "sstore" 2 0 writesStorage,
    untyped "tload" 1 1 readsStorage,
    untyped "tstore" 2 0 writesStorage,
    untyped "caller" 0 1 .calculation,
    untyped "calldataload" 1 1 .calculation,
    untyped "return" 2 0 terminates,
    untyped "revert" 2 0 terminates,
    untyped "selfdestruct" 1 0 terminates,
    untyped "dataoffset" 1 1 .calculation,
    untyped "datasize" 1 1 .calculation,
    untyped "memoryguard" 1 1 .calculation,
    .negation "iszero",
    .operation .discard "" "pop",
    .operation .equality "" "eq",
    .operation .memoryLoad "" "mload",
    .operation .memoryStore "" "mstore",
    .operation .storageLoad "" "sload",
    .operation .storageStore "" "sstore",
    .operation .hash "" "keccak256",
    .verbatim 8 ]

def typedDeclarations : List Declaration :=
  [ .valueType "u256",
    .valueType "bool",
    .boolType "bool",
    .defaultType "u256",
    signature "add" ["u256", "u256"] ["u256"] .calculation,
    signature "sub" ["u256", "u256"] ["u256"] .calculation,
    signature "eq" ["u256", "u256"] ["bool"] .calculation,
    signature "eqbool" ["bool", "bool"] ["bool"] .calculation,
    signature "not" ["bool"] ["bool"] .calculation,
    signature "pop" ["u256"] [] .calculation,
    signature "popbool" ["bool"] [] .calculation,
    signature "mload" ["u256"] ["u256"] readsMemory,
    signature "mstore" ["u256", "u256"] [] writesMemory,
    signature "sload" ["u256"] ["u256"] readsStorage,
    signature "sstore" ["u256", "u256"] [] writesStorage,
    signature "keccak256" ["u256", "u256"] ["u256"] readsMemory,
    signature "datasize" [""] ["u256"] .calculation,
    signature "dataoffset" [""] ["u256"] .calculation,
    .negation "not",
    .operation .discard "u256" "pop",
    .operation .discard "bool" "popbool",
    .operation .equality "u256" "eq",
    .operation .equality "bool" "eqbool",
    .operation .memoryLoad "u256" "mload",
    .operation .memoryStore "u256" "mstore",
    .operation .storageLoad "u256" "sload",
    .operation .storageStore "u256" "sstore",
    .operation .hash "u256" "keccak256",
    .verbatim 4 ]

end Presets

/-- Every value has the unnamed type, so the special operations are those of
the empty label. -/
def evm : Dialect := ofDeclarations Presets.evmDeclarations

/-- The value types are `u256` and `bool`. -/
def typed : Dialect := ofDeclarations Presets.typedDeclarations

end NameRegistry.Dialect
