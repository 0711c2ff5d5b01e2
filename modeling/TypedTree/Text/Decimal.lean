/-!
# Decimal numbers

Reading a number that is written in decimal digits.

## Main definitions

* `Decimal.value`: the number that digits stand for.
* `Decimal.read?`: a non-empty run of digits, read below a limit.
-/

namespace TypedTree.Text.Decimal

/-- The number that a run of digits stands for, the most significant digit first. -/
def value (digits : List Char) : Nat :=
  digits.foldl (fun n c => 10 * n + (c.toNat - '0'.toNat)) 0

/-- The number that a non-empty run of digits stands for, if it is below `limit`. Leading zeros
are allowed. -/
def read? (limit : Nat) (digits : List Char) : Option Nat :=
  if digits ≠ [] ∧ digits.all Char.isDigit ∧ value digits < limit then some (value digits)
  else none

end TypedTree.Text.Decimal
