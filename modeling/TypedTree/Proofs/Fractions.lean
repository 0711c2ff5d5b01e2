import TypedTree.Proofs.Encoding
import TypedTree.Proofs.Defaults
import TypedTree.Rational.Wide
import Mathlib.Data.Rat.Lemmas
import Mathlib.Algebra.Order.Ring.Int
import Mathlib.Algebra.Order.Ring.Rat

/-!
# Fractions as numbers

A rational is a number, and its form is the only one in lowest terms. A fraction of 64-bit numbers
is given this form if the form is one of 64-bit numbers again, and just then the same number can be
written with a positive denominator in 64-bit numbers at all. Rationals are equal and in order as
the numbers are.

All of this is computed in wide numbers, and none of the steps leaves their range: a remainder is
smaller than the divisor before it, and a product of two 64-bit numbers is small enough.

## Main definitions

* `Rational.Narrow`: the numbers that 64-bit fractions with a positive denominator stand for.
* `Rational.Lowest`: lowest terms.
* `Wide.Balanced`: wide numbers that keep their absolute value in range.

## Main statements

* `Wide.gcd?_eq`: the loop finds the greatest common divisor.
* `Rational.exists_make`, `Rational.make_eq_overflow`: which fractions are given a form.
* `Fraction.make?_eq`, `Fraction.cmp?_eq`: the computations have results.
* `Rational.exact_spec`: all of it together.
-/

namespace TypedTree

/-! ## Wide arithmetic -/

namespace Wide

variable {a b n : Int}

/-- Whether a number fits with either sign. -/
def Balanced (n : Int) : Prop :=
  n.natAbs < 0x80000000000000000000000000000000

theorem Balanced.of_le (ha : Balanced a) (closer : n.natAbs ≤ a.natAbs) : Balanced n :=
  Nat.lt_of_le_of_lt closer ha

theorem natAbs_toInt_le (n : Int64) : n.toInt.natAbs ≤ 0x8000000000000000 := by
  have := n.le_toInt
  have := n.toInt_lt
  omega

theorem balanced_toInt (n : Int64) : Balanced n.toInt :=
  Nat.lt_of_le_of_lt (natAbs_toInt_le n) (by decide)

theorem checked?_eq (hn : Balanced n) : checked? n = some n := by
  rw [Balanced] at hn
  exact if_pos ⟨by omega, by omega⟩

theorem mul?_eq (ha : a.natAbs ≤ 0x8000000000000000) (hb : b.natAbs ≤ 0x8000000000000000) :
    mul? a b = some (a * b) := by
  refine checked?_eq ?_
  rw [Balanced, Int.natAbs_mul]
  exact Nat.lt_of_le_of_lt (Nat.mul_le_mul ha hb) (by decide)

theorem div?_eq (nonzero : b ≠ 0) (ha : Balanced a) : div? a b = some (a.tdiv b) := by
  rw [div?, if_neg nonzero]
  exact checked?_eq (ha.of_le (Int.natAbs_tdiv_le_natAbs a b))

theorem rem?_eq (nonzero : b ≠ 0) (ha : Balanced a) : rem? a b = some (a.tmod b) := by
  rw [rem?, div?_eq nonzero ha, Option.map_some]

/-- One round of the loop. -/
theorem gcd?_of_ne_zero (nonzero : b ≠ 0) : gcd? a b = (rem? a b).bind (gcd? b) := by
  rw [gcd?, if_neg nonzero]
  split <;> rename_i found <;> simp [found]

theorem gcd_tmod (a b : Int) : b.gcd (a.tmod b) = a.gcd b := by
  rw [Int.tmod_def, Int.sub_eq_add_neg, ← Int.mul_neg, Int.gcd_add_mul_left_right, Int.gcd_comm]

/-- The loop finds the greatest common divisor, and no remainder on its way is out of range. -/
theorem gcd?_eq (ha : Balanced a) (hb : Balanced b) : gcd? a b = some (a.gcd b : Int) := by
  -- by the divisor, which comes closer to zero in every round
  induction hn : b.natAbs using Nat.strongRecOn generalizing a b with
  | ind n ih =>
  by_cases zero : b = 0
  · rw [gcd?, if_pos zero, abs?, zero, Int.gcd_zero]
    exact checked?_eq (ha.of_le (Int.natAbs_natCast _).le)
  · have closer : (a.tmod b).natAbs < b.natAbs := by
      rw [Int.natAbs_tmod]
      exact Nat.mod_lt _ (Int.natAbs_pos.2 zero)
    rw [gcd?_of_ne_zero zero, rem?_eq zero ha, Option.bind_some,
      ih _ (hn ▸ closer) hb (hb.of_le closer.le) rfl, gcd_tmod]

end Wide

namespace Rational

variable {a b q : Rational} {x : ℚ} {num den n d : Int}

/-! ## The number of a rational -/

theorem toRat_inj : a.toRat = b.toRat ↔ a = b := by
  constructor
  · intro same
    have num : a.num = b.num := congrArg Rat.num same
    have den : a.den = b.den := congrArg Rat.den same
    cases a
    cases b
    rw [mk.injEq]
    exact ⟨num, den⟩
  · rintro rfl
    rfl

theorem toRat_eq_div (q : Rational) : q.toRat = q.num / q.den :=
  (Rat.num_div_den q.toRat).symm

theorem cmp_eq_lt : a.cmp b = .lt ↔ a.toRat < b.toRat := by
  rw [cmp, Std.compare_eq_lt, Rat.lt_iff]
  rfl

theorem cmp_eq_gt : a.cmp b = .gt ↔ b.toRat < a.toRat := by
  rw [cmp, Std.compare_eq_gt, Rat.lt_iff]
  rfl

theorem cmp_eq_eq : a.cmp b = .eq ↔ a = b := by
  constructor
  · intro same
    have notLess : ¬ a.toRat < b.toRat := fun less => by simp [cmp_eq_lt.2 less] at same
    have notMore : ¬ b.toRat < a.toRat := fun more => by simp [cmp_eq_gt.2 more] at same
    exact toRat_inj.1 (le_antisymm (not_lt.1 notMore) (not_lt.1 notLess))
  · rintro rfl
    exact Std.ReflOrd.compare_self

theorem cmp_swap (a b : Rational) : b.cmp a = (a.cmp b).swap :=
  Std.OrientedOrd.eq_swap

theorem cmp_ne_gt : a.cmp b ≠ .gt ↔ a.toRat ≤ b.toRat := by
  rw [Ne, cmp_eq_gt, not_lt]

/-- A fraction in lowest terms that is a number. -/
def Lowest (x : ℚ) (n d : Int) : Prop :=
  0 < d ∧ n.gcd d = 1 ∧ (n / d : ℚ) = x

/-- There is one form in lowest terms. -/
theorem lowest_iff : Lowest x n d ↔ n = x.num ∧ d = x.den := by
  constructor
  · rintro ⟨positive, coprime, rfl⟩
    exact ⟨(Rat.num_div_eq_of_coprime positive coprime).symm,
      (Rat.den_div_eq_of_coprime positive coprime).symm⟩
  · rintro ⟨rfl, rfl⟩
    exact ⟨Int.natCast_pos.2 x.den_pos, x.reduced, Rat.num_div_den x⟩

theorem toRat_eq_iff : q.toRat = x ↔ ∀ n d, Lowest x n d ↔ n = q.num ∧ d = q.den := by
  simp only [lowest_iff]
  constructor
  · rintro rfl n d
    rfl
  · intro same
    obtain ⟨num, den⟩ := (same _ _).2 ⟨rfl, rfl⟩
    exact Rat.ext num (Int.natCast_inj.1 den)

/-- Whether a number is a fraction of 64-bit numbers with a positive denominator. -/
def Narrow (x : ℚ) : Prop :=
  ∃ n d : Int64, 0 < d ∧ (n.toInt / d.toInt : ℚ) = x

/-- The stored components of a rational are its numerator and denominator. -/
theorem toInt_ofRational (q : Rational) :
    (Fraction.ofRational q).num.toInt = q.num ∧ (Fraction.ofRational q).den.toInt = q.den := by
  have positive := q.den_pos
  exact ⟨Int64.toInt_ofInt_of_le q.le_num q.num_lt,
    Int64.toInt_ofInt_of_le (by omega) (Int.ofNat_lt.2 q.den_lt)⟩

theorem ofRational_inj : Fraction.ofRational a = Fraction.ofRational b ↔ a = b := by
  constructor
  · intro same
    obtain ⟨an, ad⟩ := toInt_ofRational a
    obtain ⟨bn, bd⟩ := toInt_ofRational b
    rw [same] at an ad
    refine toRat_inj.1 (Rat.ext (an.symm.trans bn) ?_)
    exact Int.natCast_inj.1 (ad.symm.trans bd)
  · rintro rfl
    rfl

theorem narrow_toRat (q : Rational) : Narrow q.toRat := by
  obtain ⟨num, den⟩ := toInt_ofRational q
  refine ⟨(Fraction.ofRational q).num, (Fraction.ofRational q).den, ?_, ?_⟩
  · rw [Int64.lt_iff_toInt_lt, den]
    exact Int.natCast_pos.2 q.den_pos
  · rw [num, den, toRat_eq_div, Int.cast_natCast]

/-- What a number was multiplied from is between the same bounds. -/
theorem within_of_mul {factor limit : Int} (positive : 0 < factor) (low : -limit ≤ factor * n)
    (high : factor * n < limit) : -limit ≤ n ∧ n < limit := by
  rcases Int.le_total 0 n with nonneg | nonpos
  · have : n ≤ factor * n := le_mul_of_one_le_left nonneg positive
    omega
  · have : factor * n ≤ n := by
      rw [← Int.neg_le_neg_iff, ← Int.mul_neg]
      exact le_mul_of_one_le_left (Int.neg_nonneg.2 nonpos) positive
    omega

/-- Lowest terms are no larger, so they fit as well. -/
theorem narrow_iff : Narrow x ↔ ∃ q : Rational, q.toRat = x := by
  constructor
  · rintro ⟨n, d, positive, rfl⟩
    have den_pos : 0 < d.toInt := by simpa [Int64.lt_iff_toInt_lt] using positive
    obtain ⟨c, hn, hd⟩ := Rat.num_den_mk den_pos.ne' (Rat.divInt_eq_div n.toInt d.toInt).symm
    generalize (n.toInt / d.toInt : ℚ) = x at hn hd ⊢
    have factor : 0 < c :=
      pos_of_mul_pos_left (hd ▸ den_pos) (Int.natCast_nonneg x.den)
    have num_fits := within_of_mul factor (hn ▸ n.le_toInt) (hn ▸ n.toInt_lt)
    have den_fits := within_of_mul factor (hd ▸ d.le_toInt) (hd ▸ d.toInt_lt)
    exact ⟨⟨x.num, x.den, num_fits.1, num_fits.2, x.den_pos, by omega, x.reduced⟩, rfl⟩
  · rintro ⟨q, rfl⟩
    exact narrow_toRat q

/-! ## Normal forms -/

theorem make_zero : make num 0 = .error .zeroDenominator := by
  simp [make]

theorem make_eq_ok_iff : make num den = .ok q ↔ den ≠ 0 ∧ q.toRat = num / den := by
  rw [make_eq_ok, toRat_eq_div]
  refine and_congr_right fun nonzero => ?_
  have positive := q.den_pos
  rw [div_eq_div_iff (by exact_mod_cast positive.ne') (by exact_mod_cast nonzero)]
  norm_cast

/-- A fraction that has a denominator and is refused is refused with its lowest terms. -/
theorem eq_overflow_of_make {e : RationalError} (nonzero : den ≠ 0) (h : make num den = .error e) :
    e = .overflow (num / den : ℚ).num (num / den : ℚ).den := by
  rw [← Rat.divInt_eq_div, Rat.num_divInt, Rat.den_divInt, if_neg nonzero, Int.gcd_comm]
  rw [make, dif_neg nonzero] at h
  simp only at h
  split at h
  · cases h
  · exact (Except.error.inj h).symm

/-- A fraction has a form just if it is a number that 64-bit fractions can be. -/
theorem exists_make : (∃ q, make num den = .ok q) ↔ den ≠ 0 ∧ Narrow (num / den) := by
  simp only [make_eq_ok_iff, exists_and_left, narrow_iff]

theorem make_eq_zeroDenominator : make num den = .error .zeroDenominator ↔ den = 0 := by
  constructor
  · intro refused
    by_contra nonzero
    cases eq_overflow_of_make nonzero refused
  · rintro rfl
    exact make_zero

theorem make_eq_overflow :
    make num den = .error (.overflow n d) ↔
      den ≠ 0 ∧ ¬ Narrow (num / den) ∧ Lowest (num / den) n d := by
  by_cases zero : den = 0
  · simp [zero, make_zero]
  rw [lowest_iff, and_iff_right zero]
  cases made : make num den with
  | ok q =>
    have narrow := (exists_make.1 ⟨q, made⟩).2
    simp [narrow]
  | error e =>
    obtain rfl := eq_overflow_of_make zero made
    have wide : ¬ Narrow (num / den) := fun narrow => by
      obtain ⟨q, found⟩ := exists_make.2 ⟨zero, narrow⟩
      simp [made] at found
    simp [wide, eq_comm]

end Rational

/-! ## The computations -/

namespace Fraction

open Wide

variable {num den : Int64}

theorem sign_eq {d : Int} (nonzero : d ≠ 0) : (if d < 0 then -1 else 1) = d.sign := by
  split
  · rename_i negative
    exact (Int.sign_eq_neg_one_of_neg negative).symm
  · exact (Int.sign_eq_one_of_pos (by omega)).symm

/-- The sign of the denominator moves into a component, and the product is divided exactly. -/
theorem component_eq {n : Int64} (nonzero : den.toInt ≠ 0)
    (divides : (num.toInt.gcd den.toInt : Int) ∣ n.toInt) :
    mul? den.toInt.sign n.toInt = some (den.toInt.sign * n.toInt) ∧
      div? (den.toInt.sign * n.toInt) (max (num.toInt.gcd den.toInt) 1) =
        some (den.toInt.sign * n.toInt / num.toInt.gcd den.toInt) := by
  have unit : den.toInt.sign.natAbs = 1 := Int.natAbs_sign_of_ne_zero nonzero
  have positive : 0 < num.toInt.gcd den.toInt := Int.gcd_pos_of_ne_zero_right _ nonzero
  have size : (den.toInt.sign * n.toInt).natAbs = n.toInt.natAbs := by
    rw [Int.natAbs_mul, unit, Nat.one_mul]
  refine ⟨mul?_eq (by omega) (natAbs_toInt_le n), ?_⟩
  rw [max_eq_left (by omega), div?_eq (by omega) ((balanced_toInt n).of_le size.le),
    Int.tdiv_eq_ediv_of_dvd (Dvd.dvd.mul_left divides _)]

/-- With a positive denominator only three bounds are left to be checked. -/
theorem ofWide_eq {n : Int} {d : Nat} :
    ofWide n d =
      if (-0x8000000000000000 ≤ n ∧ n < 0x8000000000000000) ∧ d < 0x8000000000000000 then
        .ok ⟨.ofInt n, .ofInt d⟩
      else .error (.overflow n d) := by
  have den : narrow? d = if d < 0x8000000000000000 then some (.ofInt d) else none :=
    if_congr (by omega) rfl rfl
  rw [ofWide, narrow?, den]
  by_cases hn : -0x8000000000000000 ≤ n ∧ n < 0x8000000000000000 <;>
    by_cases hd : d < 0x8000000000000000 <;> simp [hn, hd]

/-- The normal form of a fraction is computed within wide numbers, and it is the form that is asked
for. -/
theorem make?_eq (num den : Int64) :
    make? num den = some ((Rational.make num.toInt den.toInt).map ofRational) := by
  by_cases zero : den.toInt = 0
  · rw [make?, normal?, if_pos zero, zero, Rational.make_zero]
    rfl
  · have common := gcd?_eq (balanced_toInt num) (balanced_toInt den)
    obtain ⟨n, n'⟩ := component_eq zero (Int.gcd_dvd_left num.toInt den.toInt)
    obtain ⟨d, d'⟩ := component_eq zero (Int.gcd_dvd_right num.toInt den.toInt)
    simp only [make?, normal?, if_neg zero, sign_eq zero, common, n, n', d, d',
      Option.bind_eq_bind, Option.bind_some]
    rw [Int.sign_mul_self_eq_natAbs, ← Int.natCast_ediv, ofWide_eq, Rational.make, dif_neg zero]
    simp only
    split <;> rfl

/-- The cross products of rationals are wide numbers, so their order is computed. -/
theorem cmp?_eq (a b : Rational) : cmp? (ofRational a) (ofRational b) = some (a.cmp b) := by
  have product (m n : Int64) := mul?_eq (natAbs_toInt_le m) (natAbs_toInt_le n)
  obtain ⟨an, ad⟩ := Rational.toInt_ofRational a
  obtain ⟨bn, bd⟩ := Rational.toInt_ofRational b
  rw [cmp?, product, product, an, ad, bn, bd]
  rfl

end Fraction

/-- All rationals are between the least and the greatest. -/
theorem RationalRange.contains_full (q : Rational) : full.contains q = true := by
  have low := q.le_num
  have high := q.num_lt
  have positive := q.den_pos
  have above : Rational.least ≤ q := Rational.le_iff.2 <| by
    change -0x8000000000000000 * (q.den : Int) ≤ q.num * 1
    omega
  have below : q ≤ Rational.greatest := Rational.le_iff.2 <| by
    change q.num * 1 ≤ 0x7fffffffffffffff * (q.den : Int)
    omega
  simp [contains, full, above, below]

namespace Rational

/-- The fractions that are given a form are given all rationals. -/
theorem exists_make_eq (q : Rational) :
    ∃ num den : Int64, make num.toInt den.toInt = .ok q := by
  obtain ⟨num, den⟩ := toInt_ofRational q
  refine ⟨(Fraction.ofRational q).num, (Fraction.ofRational q).den, make_eq_ok_iff.2 ?_⟩
  rw [num, den, toRat_eq_div, Int.cast_natCast]
  exact ⟨Int.natCast_ne_zero.2 q.den_pos.ne', rfl⟩

/-- Rationals are exact. A fraction is refused for its denominator just if that is zero. Any other
is refused just if no 64-bit fraction with a positive denominator is the same number, and else
becomes the only form of this number in lowest terms. All rationals are made in this way, and all
are in the full range. Their components are equal just if they are the same number, and they are
ordered as numbers are, in a total order. All of this is computed with results that fit into 128
bits. -/
theorem exact_spec :
    (∀ num den : Int64,
      (make num.toInt den.toInt = .error .zeroDenominator ↔ den = 0) ∧
      ((∃ n d, make num.toInt den.toInt = .error (.overflow n d)) ↔
        den ≠ 0 ∧ ¬ Narrow (num.toInt / den.toInt)) ∧
      ((∃ q, make num.toInt den.toInt = .ok q) ↔ den ≠ 0 ∧ Narrow (num.toInt / den.toInt)) ∧
      (∀ q, make num.toInt den.toInt = .ok q ↔
        den ≠ 0 ∧ ∀ n d, Lowest (num.toInt / den.toInt) n d ↔ n = q.num ∧ d = q.den) ∧
      Fraction.make? num den = some ((make num.toInt den.toInt).map Fraction.ofRational)) ∧
    (∀ q : Rational, (∃ num den : Int64, make num.toInt den.toInt = .ok q) ∧
      RationalRange.full.contains q = true) ∧
    (∀ a b : Rational, (Fraction.ofRational a = Fraction.ofRational b ↔ a.toRat = b.toRat) ∧
      (a.cmp b = .lt ↔ a.toRat < b.toRat) ∧ (a.cmp b = .gt ↔ b.toRat < a.toRat) ∧
      (a.cmp b = .eq ↔ Fraction.ofRational a = Fraction.ofRational b) ∧
      b.cmp a = (a.cmp b).swap ∧
      Fraction.cmp? (Fraction.ofRational a) (Fraction.ofRational b) = some (a.cmp b)) ∧
    ∀ a b c : Rational, a.cmp b ≠ .gt → b.cmp c ≠ .gt → a.cmp c ≠ .gt := by
  refine ⟨fun num den => ?_, fun q => ⟨exists_make_eq q, RationalRange.contains_full q⟩,
    fun a b => ⟨ofRational_inj.trans toRat_inj.symm, cmp_eq_lt, cmp_eq_gt,
      cmp_eq_eq.trans ofRational_inj.symm, cmp_swap a b, Fraction.cmp?_eq a b⟩, fun a b c => ?_⟩
  · have zero : den.toInt = 0 ↔ den = 0 := Int64.toInt_inj (y := 0)
    rw [Ne, ← zero]
    refine ⟨make_eq_zeroDenominator, ?_, exists_make, fun q => ?_, Fraction.make?_eq num den⟩
    · simp only [make_eq_overflow, lowest_iff]
      simp
    · rw [make_eq_ok_iff, toRat_eq_iff]
  · rw [cmp_ne_gt, cmp_ne_gt, cmp_ne_gt]
    exact le_trans

/-- The least numerator over itself is one. Zero is between the least and the greatest rational. -/
theorem exact_spec_least :
    (∃ one : Rational, make Int64.minValue.toInt Int64.minValue.toInt = .ok one ∧
      one.num = 1 ∧ one.den = 1) ∧
      least.cmp zero ≠ .gt ∧ zero.cmp greatest ≠ .gt ∧ least.cmp greatest ≠ .gt := by
  obtain ⟨fractions, -, -, trans⟩ := exact_spec
  obtain ⟨-, -, exists_one, forms, -⟩ := fractions Int64.minValue Int64.minValue
  obtain ⟨one, made⟩ := exists_one.2 ⟨by decide, 1, 1, by decide, by decide +kernel⟩
  obtain ⟨num, den⟩ := (((forms one).1 made).2 1 1).1 ⟨by decide, by decide, by decide +kernel⟩
  have below : least.cmp zero ≠ .gt := by decide
  have above : zero.cmp greatest ≠ .gt := by decide
  exact ⟨⟨one, made, num.symm, (Int.natCast_inj.1 den).symm⟩, below, above,
    trans _ _ _ below above⟩

/-- The least numerator over a divisor that it does not fit with, and the least denominator. -/
example : make (-0x8000000000000000) (-1) = .error (.overflow 0x8000000000000000 1) ∧
    make 1 (-0x8000000000000000) = .error (.overflow (-1) 0x8000000000000000) := by
  decide

end Rational

end TypedTree
