import TypedTree.Text.Decimal

/-!
# Scaled decimal numbers

A decimal number of any length as a significand of at most 64 bits and a power of ten. Digits are
taken up as long as they fit; of the digits left over, those of the whole part count as powers
of ten and those of the fraction not at all.

Whether such a number is beyond the double-precision range is decided with both factors rounded
to 53 binary digits. So a number just below the limit can be found to be beyond it.

## Main definitions

* `Scaled`: significand and exponent.
* `Scaled.ofDigits`: the number that digits and an exponent spell.
* `Scaled.isHuge`: whether it is beyond the range.
-/

namespace TypedTree.Text.Decimal

/-- The number `significand * 10 ^ exponent`. -/
structure Scaled where
  significand : Nat
  exponent : Int
  deriving DecidableEq, Repr

namespace Scaled

/-- The significand with one more digit, if that fits into 64 bits. -/
def push? (significand : Nat) (c : Char) : Option Nat :=
  let n := 10 * significand + (c.toNat - '0'.toNat)
  if n < 0x10000000000000000 then some n else none

/-- A number followed by more digits of its whole part. -/
def addWhole (s : Scaled) : List Char → Scaled
  | [] => s
  | c :: rest =>
    match push? s.significand c with
    | some n => addWhole ⟨n, s.exponent⟩ rest
    | none => ⟨s.significand, s.exponent + (rest.length + 1)⟩

/-- A number followed by digits of its fraction. -/
def addFraction (s : Scaled) : List Char → Scaled
  | [] => s
  | c :: rest =>
    match push? s.significand c with
    | some n => addFraction ⟨n, s.exponent - 1⟩ rest
    | none => s

/-- The number with some digits before the point, some behind it, and a power of ten. -/
def ofDigits (whole fraction : List Char) (exponent : Int) : Scaled :=
  let s := (addWhole ⟨0, 0⟩ whole).addFraction fraction
  ⟨s.significand, s.exponent + exponent⟩

/-- A number rounded to 53 binary digits; of two that are equally near the even one is taken. -/
def round (n : Nat) : Nat :=
  let unit := Nat.pow 2 (n.log2 - 52)
  let q := n / unit
  let r := n % unit
  (if unit < 2 * r ∨ unit = 2 * r ∧ q % 2 = 1 then q + 1 else q) * unit

/-- The least number that is too large for double precision: halfway from the largest number of
53 binary digits to the next power of two. -/
def limit : Nat :=
  Nat.pow 2 1024 - Nat.pow 2 970

/-- Whether a number is beyond the double-precision range. -/
def isHuge (s : Scaled) : Bool :=
  s.significand != 0 && 0 ≤ s.exponent &&
    (308 < s.exponent || limit ≤ round s.significand * round (Nat.pow 10 s.exponent.toNat))

end Scaled

end TypedTree.Text.Decimal
