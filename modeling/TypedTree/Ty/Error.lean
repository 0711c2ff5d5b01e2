import TypedTree.Ident
import TypedTree.Mapping

/-!
# Errors of types

What can go wrong when a reference is resolved, when a value is made, checked or edited at a
type, and when a type system is extended.

## Main definitions

* `Arity`: how many type arguments a constructor takes.
* `TypeError`: the errors.
* `TypeError.isResolution`: the errors of resolving a reference.
-/

namespace TypedTree

/-- How many type arguments a constructor takes. -/
inductive Arity where
  | exactly (n : Nat)
  | atLeast (n : Nat)
  deriving DecidableEq, Repr

namespace Arity

/-- Whether a number of arguments will do. -/
def accepts : Arity → Nat → Bool
  | .exactly n, count => count == n
  | .atLeast n, count => n ≤ count

/-- The words for an arity. -/
def text : Arity → String
  | .exactly n => "exactly " ++ toString n
  | .atLeast n => "at least " ++ toString n

end Arity

/-- What went wrong. -/
inductive TypeError where
  /-- A reference that names no type. -/
  | unresolvedType (ref reason : String)
  /-- A constructor with too few or too many type arguments. -/
  | arity (constructor : GlobalId) (expected : Arity) (found : Nat)
  /-- A constructor that refuses its value arguments. -/
  | valueArgs (constructor : GlobalId) (reason : String)
  /-- A value that a type does not have, or a change that it does not allow. -/
  | invalidValue (type reason : String)
  /-- A size that an array must not have. -/
  | sizeOutOfRange (requested min max : Nat)
  /-- A type variable with nothing bound to it. -/
  | unresolvedVariable (index depth : Nat)
  /-- A name that is taken. -/
  | duplicateRegistration (id : GlobalId)
  /-- A change that would break the form of a mapping. -/
  | map (e : MapError)
  deriving DecidableEq, Repr

namespace TypeError

/-- The sentence shown for an error. -/
def message : TypeError → String
  | .unresolvedType ref reason => "unresolved type `" ++ ref ++ "`: " ++ reason
  | .arity c expected found =>
    "type constructor `" ++ c.text ++ "` expects " ++ expected.text ++
      " type argument(s), found " ++ toString found
  | .valueArgs c reason => "type constructor `" ++ c.text ++ "`: " ++ reason
  | .invalidValue type reason => "invalid value for `" ++ type ++ "`: " ++ reason
  | .sizeOutOfRange requested min max =>
    "size " ++ toString requested ++ " outside the allowed range [" ++ toString min ++ ", " ++
      toString max ++ "]"
  | .unresolvedVariable index depth =>
    "type variable " ++ toString index ++ " (depth " ++ toString depth ++ ") is unbound"
  | .duplicateRegistration id => "`" ++ id.text ++ "` is already registered"
  | .map e => e.message

/-- Whether an error says that a reference does not resolve. -/
def isResolution : TypeError → Bool
  | .unresolvedType .. | .arity .. | .valueArgs .. => true
  | _ => false

end TypeError

end TypedTree
