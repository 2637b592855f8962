/-!
# Decimal numerals of 64-bit integers

Integers are written in decimal with a leading `-` when negative and without
padding.  Reading is more liberal than writing: one sign of either kind and
leading zeros are accepted, nothing else is.
-/

namespace Primer.Decimal

/-- The number that a run of ASCII digits denotes, most significant first. -/
def ofDigits (digits : List Char) : Nat := Nat.ofDigitChars 10 digits 0

/-- An integer as a 64-bit word, provided it fits. -/
def word? (i : Int) : Option Int64 :=
  if Int64.minValue.toInt ≤ i ∧ i ≤ Int64.maxValue.toInt then some (Int64.ofInt i) else none

/-- The integer denoted by a sign and the digits after it; there must be at
least one digit. -/
def signed? (negative : Bool) (digits : List Char) : Option Int64 :=
  if digits ≠ [] ∧ digits.all Char.isDigit then
    word? (if negative then -(ofDigits digits : Int) else ofDigits digits)
  else none

/-- Reads an optionally signed numeral that fills the whole text. -/
def read? (text : String) : Option Int64 :=
  match text.toList with
  | '-' :: digits => signed? true digits
  | '+' :: digits => signed? false digits
  | digits => signed? false digits

/-- The shortest numeral of a word. -/
def write (i : Int64) : String := i.toInt.repr

end Primer.Decimal
