import NameRegistry.Label.Basic
import NameRegistry.Label.Numeral

/-! # Verbatim labels

A verbatim built-in embeds raw target code. Its label states its arity:
`verbatim_2i_1o` takes two arguments and leaves one result. Reading a label
accepts exactly the texts that writing an arity produces.
-/

namespace NameRegistry

/-- How many arguments an operation takes and how many results it leaves. -/
structure Arity where
  parameters : Nat
  returns : Nat
deriving DecidableEq, Repr

namespace Verbatim

def family : Label := "verbatim"

/-- Every count in a verbatim label fits in 64 bits. -/
def countLimit : Nat := UInt64.size

def label (arity : Arity) : Label :=
  family ++ "_" ++ toString arity.parameters ++ "i_" ++ toString arity.returns ++ "o"

def count? (digits : List Char) : Option Nat :=
  (Numeral.read? digits).filter (· < countLimit)

def ofChars? (text : List Char) : Option Arity := do
  let counts ← (family ++ "_").toList.isPrefixOf? text
  let returns ← "i_".toList.isPrefixOf? (counts.dropWhile Char.isDigit)
  guard (returns.dropWhile Char.isDigit = ['o'])
  return {
    parameters := ← count? (counts.takeWhile Char.isDigit)
    returns := ← count? (returns.takeWhile Char.isDigit) }

def ofLabel? (label : Label) : Option Arity := ofChars? label.toList

end Verbatim

end NameRegistry
