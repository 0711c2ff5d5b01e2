/-!
# Exact rational numbers

A `Rational` is a fraction in lowest terms whose numerator is a signed 64-bit integer and whose
denominator is a positive one. Two of them are equal exactly when they are the same number, and
`Rational.cmp` orders them as numbers by cross multiplication.

`Rational.make` brings any fraction into this form, or says why it has none: a zero denominator,
or components that do not fit into 64 bits after reduction.

## Main definitions

* `Rational`: the fractions.
* `Rational.make`, `Rational.ofInt64`: the ways in.
* `Rational.cmp`: the order of numbers.
* `Rational.text`: how a fraction is written.
-/

namespace TypedTree

/-- Why a fraction was refused. -/
inductive RationalError where
  | zeroDenominator
  /-- The fraction in lowest terms, with a component that does not fit. -/
  | overflow (num den : Int)
  deriving DecidableEq, Repr

/-- The sentence shown for an error. -/
def RationalError.message : RationalError → String
  | .zeroDenominator => "rational denominator must not be zero"
  | .overflow num den =>
    "rational " ++ toString num ++ "/" ++ toString den ++ " does not fit in 64-bit components"

/-- A fraction in lowest terms with 64-bit components and a positive denominator. -/
structure Rational where
  num : Int
  den : Nat
  le_num : -0x8000000000000000 ≤ num
  num_lt : num < 0x8000000000000000
  den_pos : 0 < den
  den_lt : den < 0x8000000000000000
  reduced : num.gcd den = 1
  deriving DecidableEq

namespace Rational

/-- A whole number. -/
def ofInt64 (n : Int64) : Rational where
  num := n.toInt
  den := 1
  le_num := n.le_toInt
  num_lt := n.toInt_lt
  den_pos := by decide
  den_lt := by decide
  reduced := by simp

instance : Inhabited Rational := ⟨ofInt64 0⟩

/-- Zero. -/
def zero : Rational := ofInt64 0

/-- The least number that a rational can be. -/
def least : Rational := ofInt64 Int64.minValue

/-- The greatest number that a rational can be. -/
def greatest : Rational := ofInt64 Int64.maxValue

private theorem gcd_div_eq_one {num den : Int} (h : den ≠ 0) :
    (den.sign * num / (num.gcd den : Int)).gcd (den.natAbs / num.gcd den : Nat) = 1 := by
  have hn : (den.sign * num / (num.gcd den : Int)).natAbs = num.natAbs / num.gcd den := by
    rw [Int.mul_ediv_assoc _ (Int.gcd_dvd_left ..), Int.natAbs_mul, Int.natAbs_sign_of_ne_zero h,
      Nat.one_mul, Int.natAbs_ediv_of_dvd (Int.gcd_dvd_left ..), Int.natAbs_natCast]
  change Nat.gcd _ _ = 1
  rw [hn, Int.natAbs_natCast]
  exact Nat.gcd_div_gcd_div_gcd_of_pos_right (Int.natAbs_pos.mpr h)

private theorem div_gcd_pos {num den : Int} (h : den ≠ 0) : 0 < den.natAbs / num.gcd den :=
  Nat.div_pos (Nat.le_of_dvd (Int.natAbs_pos.mpr h) (Nat.gcd_dvd_right num.natAbs den.natAbs))
    (Int.gcd_pos_of_ne_zero_right num h)

/-- The fraction `num / den` in lowest terms: the sign moves to the numerator and the greatest
common divisor is divided out, and only then must both components fit. -/
def make (num den : Int) : Except RationalError Rational :=
  if nonzero : den = 0 then .error .zeroDenominator
  else
    let n := den.sign * num / (num.gcd den : Int)
    let d := den.natAbs / num.gcd den
    if fits : (-0x8000000000000000 ≤ n ∧ n < 0x8000000000000000) ∧ d < 0x8000000000000000 then
      .ok ⟨n, d, fits.1.1, fits.1.2, div_gcd_pos nonzero, fits.2, gcd_div_eq_one nonzero⟩
    else .error (.overflow n d)

/-- The order of numbers: denominators are positive, so cross multiplication keeps it. -/
def cmp (a b : Rational) : Ordering :=
  compare (a.num * b.den) (b.num * a.den)

instance : LE Rational := ⟨fun a b => (a.cmp b).isLE = true⟩

instance (a b : Rational) : Decidable (a ≤ b) :=
  inferInstanceAs (Decidable ((a.cmp b).isLE = true))

instance : Min Rational := ⟨fun a b => if a ≤ b then a else b⟩

instance : Max Rational := ⟨fun a b => if a ≤ b then b else a⟩

/-- Whether a rational is a whole number. -/
def isInteger (q : Rational) : Bool :=
  q.den == 1

/-- The numerator and, unless it is one, the denominator behind a slash. -/
def text (q : Rational) : String :=
  if q.den = 1 then toString q.num else toString q.num ++ "/" ++ toString q.den

/-- How a rational is shown to a programmer. -/
def describe (q : Rational) : String :=
  "Rational(" ++ q.text ++ ")"

end Rational

end TypedTree
