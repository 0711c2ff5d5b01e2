import TypedTree.Ty

/-!
# Flags

A summary of a type in seven flags.

## Main definitions

* `Flags`: the summary.
* `Ty.flags`: the summary of a type.
* `Flags.propagate`: what a type inherits from its parts.
-/

namespace TypedTree

/-- What is known about a type at a glance. -/
structure Flags where
  /-- A variable is free in it. -/
  hasVar : Bool
  /-- A stand-in is in it. -/
  hasFailure : Bool
  /-- Its reference names a primitive. -/
  isPrimitive : Bool
  /-- Its values are made of parts. -/
  isCompound : Bool
  isGeneric : Bool
  isVar : Bool
  /-- It has a value. -/
  isInhabited : Bool
  deriving DecidableEq, Repr

namespace Flags

/-- No flag. -/
def none : Flags := ⟨false, false, false, false, false, false, false⟩

/-- Every flag that either side has. -/
def union (a b : Flags) : Flags where
  hasVar := a.hasVar || b.hasVar
  hasFailure := a.hasFailure || b.hasFailure
  isPrimitive := a.isPrimitive || b.isPrimitive
  isCompound := a.isCompound || b.isCompound
  isGeneric := a.isGeneric || b.isGeneric
  isVar := a.isVar || b.isVar
  isInhabited := a.isInhabited || b.isInhabited

/-- Of the flags of its parts a type inherits only the failures. -/
def propagate (parts : List Flags) : Flags :=
  { none with hasFailure := parts.any (·.hasFailure) }

/-- The flag of a name alone. -/
def named? : String → Option Flags
  | "HAS_VAR" => some { none with hasVar := true }
  | "HAS_FAILURE" => some { none with hasFailure := true }
  | "IS_PRIMITIVE" => some { none with isPrimitive := true }
  | "IS_COMPOUND" => some { none with isCompound := true }
  | "IS_GENERIC" => some { none with isGeneric := true }
  | "IS_VAR" => some { none with isVar := true }
  | "IS_INHABITED" => some { none with isInhabited := true }
  | _ => Option.none

/-- The flags of several names together. -/
def ofNames? : List String → Option Flags
  | [] => some none
  | name :: rest => do some ((← named? name).union (← ofNames? rest))

/-- The names of the flags that are set, in alphabetical order. -/
def names (f : Flags) : List String :=
  [("HAS_FAILURE", f.hasFailure), ("HAS_VAR", f.hasVar), ("IS_COMPOUND", f.isCompound),
    ("IS_GENERIC", f.isGeneric), ("IS_INHABITED", f.isInhabited),
    ("IS_PRIMITIVE", f.isPrimitive), ("IS_VAR", f.isVar)].filterMap
      fun f => if f.2 then some f.1 else Option.none

end Flags

/-- The summary of a type. -/
def Ty.flags (t : Ty) : Flags where
  hasVar := t.freeDepth.isSome
  hasFailure := t.hasFailure
  isPrimitive := t.ref.isPrimitive
  isCompound := t.kind.isCompound
  isGeneric := match t.kind with
    | .generic .. => true
    | _ => false
  isVar := match t.kind with
    | .var _ => true
    | _ => false
  isInhabited := t.isInhabited

end TypedTree
