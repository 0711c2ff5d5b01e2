import TypedTree.Inclusion
import TypedTree.Ty.Error
import TypedTree.Value.Equality
import TypedTree.Value.Text

/-!
# Scalar types

The bounded numbers and the enumerations. One bounded type is included in another when its
interval is; one enumeration in another when its members are, a blank counting as a member.

## Main definitions

* `IntRange`, `RationalRange`: intervals with at least one number in them.
* `Enumeration`: identifiers, and perhaps a blank.
-/

namespace TypedTree

/-- The error for a value that a type does not have. -/
def TypeError.outside (type value min max : String) : TypeError :=
  .invalidValue type (value ++ " outside [" ++ min ++ ", " ++ max ++ "]")

/-- An interval of whole numbers, its ends included. -/
structure IntRange where
  min : Int64
  max : Int64
  min_le_max : min ≤ max
  deriving DecidableEq

namespace IntRange

/-- The interval between two bounds, unless it is empty. -/
def make? (min max : Int64) : Option IntRange :=
  if h : min ≤ max then some ⟨min, max, h⟩ else none

/-- All 64-bit numbers. -/
def full : IntRange := ⟨Int64.minValue, Int64.maxValue, by decide⟩

/-- Whether a number is in an interval. -/
def contains (r : IntRange) (n : Int64) : Bool :=
  r.min ≤ n && n ≤ r.max

/-- The number of an interval that is nearest to zero. -/
def default (r : IntRange) : Int64 :=
  if 0 < r.min then r.min else if r.max < 0 then r.max else 0

/-- Refuse a number that is not in the interval of the named type. -/
def check (r : IntRange) (type : String) (n : Int64) : Except TypeError Unit :=
  if r.contains n then .ok ()
  else .error (.outside type (toString n.toInt) (toString r.min.toInt) (toString r.max.toInt))

/-- Whether one interval lies in another. -/
def within (r s : IntRange) : Bool :=
  s.min ≤ r.min && r.max ≤ s.max

/-- How two intervals relate. -/
def compare (r s : IntRange) : Inclusion :=
  .ofBoth (r.within s) (s.within r)

end IntRange

/-- An interval of rational numbers, its ends included. -/
structure RationalRange where
  min : Rational
  max : Rational
  min_le_max : min ≤ max
  deriving DecidableEq

namespace RationalRange

/-- The interval between two bounds, unless it is empty. -/
def make? (min max : Rational) : Option RationalRange :=
  if h : min ≤ max then some ⟨min, max, h⟩ else none

/-- From the least rational to the greatest. -/
def full : RationalRange := ⟨.least, .greatest, by decide⟩

/-- Whether a number is in an interval. -/
def contains (r : RationalRange) (q : Rational) : Bool :=
  r.min ≤ q && q ≤ r.max

/-- The number of an interval that is nearest to zero. -/
def default (r : RationalRange) : Rational :=
  if r.min ≤ .zero then if .zero ≤ r.max then .zero else r.max else r.min

/-- Refuse a number that is not in the interval of the named type. -/
def check (r : RationalRange) (type : String) (q : Rational) : Except TypeError Unit :=
  if r.contains q then .ok () else .error (.outside type q.text r.min.text r.max.text)

/-- Whether one interval lies in another. -/
def within (r s : RationalRange) : Bool :=
  s.min ≤ r.min && r.max ≤ s.max

/-- How two intervals relate. -/
def compare (r s : RationalRange) : Inclusion :=
  .ofBoth (r.within s) (s.within r)

end RationalRange

/-- Identifiers without repeats, and perhaps a blank. -/
structure Enumeration where
  members : List Ident
  blank : Bool
  deriving DecidableEq, Repr

namespace Enumeration

/-- A list without its repeats; the first of equal members stays. -/
def distinct : List Ident → List Ident
  | [] => []
  | id :: rest => id :: (distinct rest).filter (· != id)

/-- The enumeration of the members in a list. -/
def ofList (members : List Ident) (blank : Bool) : Enumeration :=
  ⟨distinct members, blank⟩

/-- All values, the blank last. -/
def values (e : Enumeration) : List Value :=
  e.members.map .ident ++ if e.blank then [.void] else []

/-- Whether a value belongs to an enumeration. -/
def contains (e : Enumeration) : Value → Bool
  | .ident id => id ∈ e.members
  | .void => e.blank
  | _ => false

/-- The first member, or the blank when there is none. -/
def default (e : Enumeration) : Value :=
  match e.members with
  | id :: _ => .ident id
  | [] => .void

/-- Refuse a value that is no member of the named type. -/
def check (e : Enumeration) (type : String) (v : Value) : Except TypeError Unit :=
  if e.contains v then .ok ()
  else .error (.invalidValue type ("`" ++ v.render ++ "` is not a member"))

/-- Whether every value of one enumeration is one of another. -/
def within (e f : Enumeration) : Bool :=
  (!e.blank || f.blank) && e.members.all (· ∈ f.members)

/-- How two enumerations relate. -/
def compare (e f : Enumeration) : Inclusion :=
  .ofBoth (e.within f) (f.within e)

end Enumeration

end TypedTree
