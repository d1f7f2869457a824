/-! # Decimal numerals

A number has exactly one written form: its decimal digits, with no sign and no
leading zero. Reading refuses every other spelling.
-/

namespace NameRegistry.Numeral

def write (value : Nat) : List Char := Nat.toDigits 10 value

def read? : List Char → Option Nat
  | [] => none
  | '0' :: rest => if rest.isEmpty then some 0 else none
  | digits =>
      if digits.all Char.isDigit then some (Nat.ofDigitChars 10 digits 0) else none

end NameRegistry.Numeral
