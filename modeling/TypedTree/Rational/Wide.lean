import TypedTree.Rational

/-!
# Fractions by wide arithmetic

A fraction as it is stored, two 64-bit numbers, and how its normal form and its order are computed
in signed numbers of 128 bits. An operation whose result does not fit into them has no result, and
then neither has the computation. Division is rounded toward zero, so remainders have the sign of
what was divided, and the loop that finds the greatest common divisor may run on negative numbers.

## Main definitions

* `Wide.mul?`, `Wide.div?`, `Wide.rem?`, `Wide.abs?`: the operations.
* `Wide.gcd?`: the loop.
* `Fraction.make?`, `Fraction.cmp?`: normal form and order.
-/

namespace TypedTree

namespace Wide

/-- Whether a number is a signed 128-bit number. -/
def Fits (n : Int) : Prop :=
  -0x80000000000000000000000000000000 ≤ n ∧ n < 0x80000000000000000000000000000000

instance (n : Int) : Decidable (Fits n) :=
  inferInstanceAs (Decidable (_ ∧ _))

/-- A number, if it fits. -/
def checked? (n : Int) : Option Int :=
  if Fits n then some n else none

/-- The product. -/
def mul? (a b : Int) : Option Int :=
  checked? (a * b)

/-- The quotient, rounded toward zero. -/
def div? (a b : Int) : Option Int :=
  if b = 0 then none else checked? (a.tdiv b)

/-- The remainder of the division. There is none where there is no quotient. -/
def rem? (a b : Int) : Option Int :=
  (div? a b).map fun _ => a.tmod b

/-- The number without its sign. -/
def abs? (a : Int) : Option Int :=
  checked? a.natAbs

/-- A remainder is closer to zero than the divisor. -/
theorem natAbs_lt_of_rem? {a b r : Int} (h : rem? a b = some r) : r.natAbs < b.natAbs := by
  obtain ⟨q, hq, rfl⟩ := Option.map_eq_some_iff.1 h
  have nonzero : b ≠ 0 := by
    rintro rfl
    simp [div?] at hq
  rw [Int.natAbs_tmod]
  exact Nat.mod_lt _ (Int.natAbs_pos.2 nonzero)

/-- The greatest common divisor, by remainders. -/
def gcd? (a b : Int) : Option Int :=
  if b = 0 then abs? a
  else
    match h : rem? a b with
    | none => none
    | some r =>
      have := natAbs_lt_of_rem? h
      gcd? b r
  termination_by b.natAbs

/-- A number as one of 64 bits. -/
def narrow? (n : Int) : Option Int64 :=
  if -0x8000000000000000 ≤ n ∧ n < 0x8000000000000000 then some (.ofInt n) else none

end Wide

/-- A fraction as it is stored. -/
structure Fraction where
  num : Int64
  den : Int64
  deriving DecidableEq, Repr

namespace Fraction

open Wide

/-- The components of a rational. -/
def ofRational (q : Rational) : Fraction :=
  ⟨.ofInt q.num, .ofInt q.den⟩

/-- The fraction of two wide numbers, if they fit into 64 bits. -/
def ofWide (n d : Int) : Except RationalError Fraction :=
  match narrow? n, narrow? d with
  | some num, some den => .ok ⟨num, den⟩
  | _, _ => .error (.overflow n d)

/-- The normal form of a fraction of wide numbers. -/
def normal? (num den : Int) : Option (Except RationalError Fraction) :=
  if den = 0 then some (.error .zeroDenominator)
  else do
    let sign := if den < 0 then -1 else 1
    let common ← gcd? num den
    let n ← div? (← mul? sign num) (max common 1)
    let d ← div? (← mul? sign den) (max common 1)
    some (ofWide n d)

/-- The normal form of a fraction. -/
def make? (num den : Int64) : Option (Except RationalError Fraction) :=
  normal? num.toInt den.toInt

/-- The order of two fractions, by their cross products. -/
def cmp? (a b : Fraction) : Option Ordering := do
  let left ← mul? a.num.toInt b.den.toInt
  let right ← mul? b.num.toInt a.den.toInt
  some (compare left right)

end Fraction

end TypedTree
