import PhpSymbols.Text.Cut

/-!
Natural numbers in text, as indexes and offsets are written.
-/

namespace PhpSymbols.Text

/-- The number that decimal digits spell. -/
def digitsValue (digits : List Char) : Nat :=
  digits.foldl (fun n d => 10 * n + (d.toNat - '0'.toNat)) 0

/-- Two to the power 64, which no index or offset reaches. -/
def wordBound : Nat := 18446744073709551616

/-- Reads a number below the word bound: digits, perhaps after a plus sign. -/
def number? (s : List Char) : Option Nat :=
  let digits := stripFirst '+' s
  if digits.isEmpty || !digits.all Char.isDigit then none
  else if digitsValue digits < wordBound then some (digitsValue digits)
  else none

end PhpSymbols.Text
