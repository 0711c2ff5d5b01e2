import TypedTree.Core
import TypedTree.Ty.Error

/-!
# Variables and their instances

A generic reference binds the variables of its body, its first type argument. A variable says
how many generics lie between it and the one that binds it: depth zero is bound by the innermost
generic around it. Depths rise only inside a body, never inside the bindings of a generic.

Instantiation puts bindings in the place of the variables that one generic binds. The generic
disappears, so variables that are bound further out lose one level, and a binding is raised by
the number of generics it moves into.

A depth is a number of 32 bits, and a variable that is raised may need more. What is written for it
then is left to a `Writer`. Everything here uses `TypeRef.varAt`, which marks the place: the result
tells that a depth was lost, and resolves to nothing. A machine that adds without looking writes
`TypeRef.wrappedVar`, another variable.

## Main definitions

* `TypeVar`: a variable.
* `TypeRef.Writer`: how variables are written anew.
* `TypeRef.shift`: a reference moved into deeper scopes.
* `TypeRef.instantiate`: a body with bindings in the place of its variables.
* `TypeRef.weight`: a size of references that instantiation does not raise.
-/

namespace TypedTree

/-- A variable: which one, and of which generic around it. -/
structure TypeVar where
  index : UInt32
  depth : UInt32
  deriving DecidableEq, Repr

namespace TypeVar

/-- A raised decimal digit. -/
def superscript : Char → Char
  | '0' => '⁰'
  | '1' => '¹'
  | '2' => '²'
  | '3' => '³'
  | '4' => '⁴'
  | '5' => '⁵'
  | '6' => '⁶'
  | '7' => '⁷'
  | '8' => '⁸'
  | '9' => '⁹'
  | c => c

/-- A variable as it is shown: a letter, a number once the letters are used up, and the depth
raised unless it is zero. -/
def symbol (v : TypeVar) : String :=
  let i := v.index.toNat
  (Char.ofNat ('A'.toNat + i % 26)).toString ++
    (if i < 26 then "" else toString (i / 26)) ++
    (if v.depth = 0 then "" else
      String.ofList ((Nat.toDigits 10 v.depth.toNat).map superscript))

/-- The error for a variable that stands for nothing. -/
def unresolved (v : TypeVar) : TypeError :=
  .unresolvedVariable v.index.toNat v.depth.toNat

end TypeVar

/-- A whole number that fits into unsigned 32 bits. -/
def Value.uint32? (v : Value) : Option UInt32 := do
  let n ← v.int?
  if 0 ≤ n.toInt ∧ n.toInt < 0x100000000 then some (.ofNat n.toInt.toNat) else none

namespace TypeRef

/-- The variable that a constructor with value arguments stands for. -/
def var? (c : GlobalId) (values : List Value) : Option TypeVar :=
  if c = Core.var then
    match values with
    | [index, depth] => do
      let index ← index.uint32?
      let depth ← depth.uint32?
      some ⟨index, depth⟩
    | _ => none
  else none

/-- How a variable is written anew, at a depth that may be too large for one. -/
abbrev Writer := UInt32 → Nat → TypeRef

/-- A variable, or a mark if the depth is too large for one. The mark is no variable and does not
resolve. -/
def varAt (index : UInt32) (depth : Nat) : TypeRef :=
  .constructed Core.var [] [.count index.toNat, .count (min depth UInt32.size)]

/-- A variable at the lower 32 bits of the depth. -/
def wrappedVar (index : UInt32) (depth : Nat) : TypeRef :=
  var index (.ofNat depth)

/-- Whether a constructor with value arguments is the mark of a depth that was too large. -/
def isMark (c : GlobalId) (values : List Value) : Bool :=
  match values with
  | [_, .int depth] => c == Core.var && depth == .ofNat UInt32.size
  | _ => false

mutual

/-- Whether there is a mark of a depth that was too large. -/
def overflows : TypeRef → Bool
  | .primitive _ => false
  | .constructed c types values => isMark c values || overflowsAny types
termination_by structural x => x

/-- Whether there is such a mark in any reference of a list. -/
def overflowsAny : List TypeRef → Bool
  | [] => false
  | r :: rest => overflows r || overflowsAny rest
termination_by structural x => x

end

mutual

/-- Raise the variables that are bound at or beyond `cutoff` generics by `levels`. -/
def raiseBy (write : Writer) (levels cutoff : Nat) : TypeRef → TypeRef
  | .primitive id => .primitive id
  | .constructed c types values =>
    match var? c values with
    | some v =>
      if cutoff ≤ v.depth.toNat then write v.index (v.depth.toNat + levels)
      else .constructed c types values
    | none =>
      if c = Core.generic then .constructed c (raiseBodyBy write levels cutoff types) values
      else .constructed c (raiseAllBy write levels cutoff types) values
termination_by structural x => x

/-- Raise the variables of every reference in a list. -/
def raiseAllBy (write : Writer) (levels cutoff : Nat) : List TypeRef → List TypeRef
  | [] => []
  | r :: rest => raiseBy write levels cutoff r :: raiseAllBy write levels cutoff rest
termination_by structural x => x

/-- Raise the variables of a body and its bindings; the body is one generic deeper. -/
def raiseBodyBy (write : Writer) (levels cutoff : Nat) : List TypeRef → List TypeRef
  | [] => []
  | body :: bindings =>
    raiseBy write levels (cutoff + 1) body :: raiseAllBy write levels cutoff bindings
termination_by structural x => x

end

/-- A reference moved under `levels` more generics: the variables that are bound outside
`cutoff` generics keep their meaning. -/
def shiftBy (write : Writer) (r : TypeRef) (levels cutoff : Nat) : TypeRef :=
  if levels = 0 then r else raiseBy write levels cutoff r

mutual

/-- Put `bindings` in the place of the variables that are bound `level` generics out, and lower
the variables that are bound further out. -/
def substituteBy (write : Writer) (bindings : List TypeRef) (level : Nat) :
    TypeRef → Except TypeError TypeRef
  | .primitive id => .ok (.primitive id)
  | .constructed c types values =>
    match var? c values with
    | some v =>
      if v.depth.toNat = level then
        match bindings[v.index.toNat]? with
        | some b => .ok (b.shiftBy write level 0)
        | none => .error v.unresolved
      else if level < v.depth.toNat then .ok (var v.index (v.depth - 1))
      else .ok (.constructed c types values)
    | none =>
      if c = Core.generic then do
        let types ← substituteBodyBy write bindings level types
        .ok (.constructed c types values)
      else do
        let types ← substituteAllBy write bindings level types
        .ok (.constructed c types values)
termination_by structural x => x

/-- Substitute in every reference of a list; the first error counts. -/
def substituteAllBy (write : Writer) (bindings : List TypeRef) (level : Nat) :
    List TypeRef → Except TypeError (List TypeRef)
  | [] => .ok []
  | r :: rest => do
    let r ← substituteBy write bindings level r
    let rest ← substituteAllBy write bindings level rest
    .ok (r :: rest)
termination_by structural x => x

/-- Substitute in a body and its bindings; the body is one generic deeper. -/
def substituteBodyBy (write : Writer) (bindings : List TypeRef) (level : Nat) :
    List TypeRef → Except TypeError (List TypeRef)
  | [] => .ok []
  | body :: rest => do
    let body ← substituteBy write bindings (level + 1) body
    let rest ← substituteAllBy write bindings level rest
    .ok (body :: rest)
termination_by structural x => x

end

/-- A body with bindings in the place of the variables of the generic around it. -/
def instantiateBy (write : Writer) (body : TypeRef) (bindings : List TypeRef) :
    Except TypeError TypeRef :=
  substituteBy write bindings 0 body

/-! ## With marks -/

/-- Raise variables, and mark depths that get too large. -/
def raise (levels cutoff : Nat) (r : TypeRef) : TypeRef :=
  raiseBy varAt levels cutoff r

/-- Move a reference under more generics, and mark depths that get too large. -/
def shift (r : TypeRef) (levels cutoff : Nat) : TypeRef :=
  shiftBy varAt r levels cutoff

/-- Substitute, and mark depths that get too large. -/
def substitute (bindings : List TypeRef) (level : Nat) (r : TypeRef) : Except TypeError TypeRef :=
  substituteBy varAt bindings level r

/-- Put bindings in place, and mark depths that get too large. -/
def instantiate (body : TypeRef) (bindings : List TypeRef) : Except TypeError TypeRef :=
  instantiateBy varAt body bindings

/-! ## Sizes -/

/-- Several sizes together. -/
def total (sizes : List Nat) : Nat :=
  sizes.foldr (· + ·) 0

mutual

/-- The size of a reference, where a variable counts as much as what is bound to it in `scopes`,
innermost first. A generic thus weighs more than its instance, however often the instance repeats
a binding. Type arguments of a variable are never substituted and count for themselves. -/
def weightIn (scopes : List (List Nat)) : TypeRef → Nat
  | .primitive _ => 1
  | .constructed c types values =>
    match var? c values with
    | some v =>
      (scopes[v.depth.toNat]?.bind (·[v.index.toNat]?)).getD 1 + total (weightAll [] types)
    | none =>
      if c = Core.generic then 1 + weightBody scopes types
      else 1 + total (weightAll scopes types)
termination_by structural x => x

/-- The sizes of the references in a list. -/
def weightAll (scopes : List (List Nat)) : List TypeRef → List Nat
  | [] => []
  | r :: rest => weightIn scopes r :: weightAll scopes rest
termination_by structural x => x

/-- The size of a body and its bindings together. -/
def weightBody (scopes : List (List Nat)) : List TypeRef → Nat
  | [] => 0
  | body :: bindings =>
    let inner := weightAll scopes bindings
    total inner + weightIn (inner :: scopes) body
termination_by structural x => x

end

/-- The size of a reference whose free variables count as one. -/
def weight (r : TypeRef) : Nat :=
  weightIn [] r

end TypeRef

end TypedTree
