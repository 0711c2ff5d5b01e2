/-!
# Orders between types

What is known about two types by looking at their value sets: which one is included in the
other, if any. `disjoint` is for types that could not be built, which relate to nothing.

## Main definitions

* `Inclusion`: the five answers.
* `Inclusion.reverse`: the answer for the swapped pair.
* `Inclusion.meet`: the answer for two things at once.
* `Inclusion.ofBoth`: the answer from the two inclusions.
-/

namespace TypedTree

/-- How one type relates to another. -/
inductive Inclusion where
  | subtype
  | supertype
  | equivalent
  | unrelated
  | disjoint
  deriving DecidableEq, Repr, Inhabited

namespace Inclusion

/-- The answer for the swapped pair. -/
def reverse : Inclusion → Inclusion
  | .subtype => .supertype
  | .supertype => .subtype
  | o => o

/-- The answer from whether the first is included in the second and the second in the first. -/
def ofBoth : Bool → Bool → Inclusion
  | true, true => .equivalent
  | true, false => .subtype
  | false, true => .supertype
  | false, false => .unrelated

/-- The answer for a whole of two parts, from the answers for the parts. -/
def meet : Inclusion → Inclusion → Inclusion
  | .disjoint, _ | _, .disjoint => .disjoint
  | .unrelated, _ | _, .unrelated => .unrelated
  | .equivalent, o | o, .equivalent => o
  | .subtype, .subtype => .subtype
  | .supertype, .supertype => .supertype
  | .subtype, .supertype | .supertype, .subtype => .unrelated

/-- Whether the first type is included in the second. -/
def isSubtype : Inclusion → Bool
  | .subtype | .equivalent => true
  | _ => false

/-- Whether the second type is included in the first. -/
def isSupertype : Inclusion → Bool
  | .supertype | .equivalent => true
  | _ => false

/-- Whether either type is included in the other. -/
def isRelated (o : Inclusion) : Bool :=
  o.isSubtype || o.isSupertype

/-- The word for an answer. -/
def text : Inclusion → String
  | .subtype => "subtype"
  | .supertype => "supertype"
  | .equivalent => "equivalent"
  | .unrelated => "unrelated"
  | .disjoint => "disjoint"

/-- The answer that a word stands for. -/
def read? : String → Option Inclusion
  | "subtype" => some .subtype
  | "supertype" => some .supertype
  | "equivalent" => some .equivalent
  | "unrelated" => some .unrelated
  | "disjoint" => some .disjoint
  | _ => none

@[simp] theorem read?_text (o : Inclusion) : read? o.text = some o := by
  cases o <;> rfl

end Inclusion

end TypedTree
