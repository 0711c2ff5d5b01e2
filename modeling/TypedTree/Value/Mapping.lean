import TypedTree.Value.Equality

/-!
# Mappings of values

When the rule of a mapping is for a value: an exact rule for that value only, a range for the
numbers between its bounds.

## Main definitions

* `Pattern.hits`: whether a pattern is for a value.
* `Mapping.answer`: the value that a mapping gives for a value.
-/

namespace TypedTree

/-- Whether a pattern is for an input. A range is for numbers only, and its bounds count as
inside. -/
def Pattern.hits (input : Value) : Pattern Value → Bool
  | .exact v => v == input
  | .range min max => min.numericLE input && input.numericLE max

/-- The value that a mapping gives for a value. -/
def Mapping.answer (table : Mapping Value) (input : Value) : Value :=
  table.apply (Pattern.hits input) input

end TypedTree
