import TypedTree.Generic
import TypedTree.Ty.Scalar

/-!
# Resolved types

A `Ty` is what a type reference resolves to: the reference itself, a name to show, and a `Kind`,
which says what the values are like and holds the types of their parts. A type also knows the
type system that built it, its `home`. A type system builds one type per reference, so home and
reference together say which instance a type is.

What a type is made of decides three properties, computed from the parts up: whether a failure
is anywhere in it, how far its free variables reach, and whether it has a value.

## Main definitions

* `Kind`, `Ty`: the types.
* `Kind.parts`: the types of the parts.
* `Ty.fold`: recursion on the parts.
* `Ty.freeDepth`, `Ty.hasFailure`, `Ty.isInhabited`: the properties.
* `Ty.sameInstance`: whether two types are the same one.
-/

namespace TypedTree

/-- A field of a record type. -/
structure Field (τ : Type) where
  id : Ident
  type : τ
  optional : Bool
  deriving DecidableEq

/-- A tag of a variant type, with the positions of its fields in the declaration. -/
structure Tag where
  id : Ident
  fields : List Nat
  deriving DecidableEq, Repr

/-- The sizes that an array type allows, and the one that its values start with. -/
structure SizeBounds where
  min : UInt32
  max : UInt32
  initial : UInt32
  min_le_initial : min ≤ initial
  initial_le_max : initial ≤ max
  deriving DecidableEq

/-- What the values of a type are like. -/
inductive Kind (τ : Type) where
  | bool
  | int (range : IntRange)
  | rational (range : RationalRange)
  | text
  | enumeration (e : Enumeration)
  | record (fields : List (Field τ))
  /-- The fields of all tags together, the tags, and the tag that values start with. -/
  | variant (fields : List (Ident × τ)) (tags : List Tag) (initial : Tag)
  | array (element : τ) (size : SizeBounds)
  | sum (summands : List τ) (initial : UInt32)
  | tuple (slots : List τ)
  /-- The body with its own variables, their number, and what is bound to them, if anything. -/
  | generic (body : TypeRef) (inner : τ) (vars : UInt32) (bindings : List (TypeRef × τ))
  | map (source target : τ)
  | var (v : TypeVar)
  /-- A stand-in for a type that could not be built. -/
  | failure (e : TypeError)

namespace Kind

variable {τ : Type}

/-- The word for a kind. -/
def name : Kind τ → String
  | .bool => "bool"
  | .int _ => "int"
  | .rational _ => "rational"
  | .text => "text"
  | .enumeration _ => "enumeration"
  | .record _ => "record"
  | .variant .. => "variant"
  | .array .. => "array"
  | .sum .. => "sum"
  | .tuple _ => "tuple"
  | .generic .. => "generic"
  | .map .. => "map"
  | .var _ => "var"
  | .failure _ => "failure"

/-- The types of the parts, in order of declaration; of a generic the body first. -/
def parts : Kind τ → List τ
  | .record fields => fields.map (·.type)
  | .variant fields _ _ => fields.map (·.2)
  | .array element _ => [element]
  | .sum summands _ => summands
  | .tuple slots => slots
  | .generic _ inner _ bindings => inner :: bindings.map (·.2)
  | .map source target => [source, target]
  | .bool | .int _ | .rational _ | .text | .enumeration _ | .var _ | .failure _ => []

/-- Whether values of a kind are made of parts. -/
def isCompound : Kind τ → Bool
  | .record _ | .variant .. | .array .. | .sum .. | .tuple _ | .generic .. | .map .. => true
  | .bool | .int _ | .rational _ | .text | .enumeration _ | .var _ | .failure _ => false

/-- The same kind over other part types. -/
def mapParts {σ : Type} (f : τ → σ) : Kind τ → Kind σ
  | .bool => .bool
  | .int r => .int r
  | .rational r => .rational r
  | .text => .text
  | .enumeration e => .enumeration e
  | .record fields => .record (fields.map fun d => ⟨d.id, f d.type, d.optional⟩)
  | .variant fields tags initial => .variant (fields.map fun d => (d.1, f d.2)) tags initial
  | .array element size => .array (f element) size
  | .sum summands initial => .sum (summands.map f) initial
  | .tuple slots => .tuple (slots.map f)
  | .generic body inner vars bindings =>
    .generic body (f inner) vars (bindings.map fun b => (b.1, f b.2))
  | .map source target => .map (f source) (f target)
  | .var v => .var v
  | .failure e => .failure e

/-- Mapping a kind maps its parts. -/
@[simp] theorem parts_mapParts {σ : Type} (f : τ → σ) (k : Kind τ) :
    (k.mapParts f).parts = k.parts.map f := by
  cases k <;> simp [mapParts, parts, Function.comp_def]

end Kind

/-- A resolved type. -/
structure Ty where
  /-- The type system that built it. -/
  home : Nat
  ref : TypeRef
  name : String
  kind : Kind Ty

namespace Ty

variable {α : Type}

section Fold

variable (step : Ty → List α → α)

mutual

/-- Compute a property of a type from the same property of its parts. -/
def fold : Ty → α
  | ⟨home, ref, name, kind⟩ => step ⟨home, ref, name, kind⟩ (foldParts kind)
termination_by structural t => t

/-- The property of each part of a kind. -/
def foldParts : Kind Ty → List α
  | .record fields => foldFields fields
  | .variant fields _ _ => foldSnd fields
  | .array element _ => [fold element]
  | .sum summands _ => foldAll summands
  | .tuple slots => foldAll slots
  | .generic _ inner _ bindings => fold inner :: foldBound bindings
  | .map source target => [fold source, fold target]
  | .bool | .int _ | .rational _ | .text | .enumeration _ | .var _ | .failure _ => []
termination_by structural k => k

/-- The property of each type in a list. -/
def foldAll : List Ty → List α
  | [] => []
  | t :: rest => fold t :: foldAll rest
termination_by structural ts => ts

/-- The property of each record field. -/
def foldFields : List (Field Ty) → List α
  | [] => []
  | f :: rest => fold f.type :: foldFields rest
termination_by structural fs => fs

/-- The property of each variant field. -/
def foldSnd : List (Ident × Ty) → List α
  | [] => []
  | f :: rest => fold f.2 :: foldSnd rest
termination_by structural fs => fs

/-- The property of each binding. -/
def foldBound : List (TypeRef × Ty) → List α
  | [] => []
  | b :: rest => fold b.2 :: foldBound rest
termination_by structural bs => bs

end

/-- Folding a type folds its parts. -/
theorem fold_eq (t : Ty) : t.fold step = step t (t.kind.parts.map (fold step)) := by
  have all (ts : List Ty) : foldAll step ts = ts.map (fold step) := by
    induction ts <;> simp_all [foldAll]
  have fields (fs : List (Field Ty)) :
      foldFields step fs = (fs.map (·.type)).map (fold step) := by
    induction fs <;> simp_all [foldFields]
  have snd (fs : List (Ident × Ty)) : foldSnd step fs = (fs.map (·.2)).map (fold step) := by
    induction fs <;> simp_all [foldSnd]
  have bound (bs : List (TypeRef × Ty)) :
      foldBound step bs = (bs.map (·.2)).map (fold step) := by
    induction bs <;> simp_all [foldBound]
  obtain ⟨home, ref, name, kind⟩ := t
  cases kind <;> simp [fold, foldParts, Kind.parts, all, fields, snd, bound]

end Fold

/-- Whether two types are one and the same instance. -/
def sameInstance (a b : Ty) : Bool :=
  a.home == b.home && a.ref == b.ref

/-- The error that a stand-in carries. -/
def failure? (t : Ty) : Option TypeError :=
  match t.kind with
  | .failure e => some e
  | _ => none

/-- Whether a type is a stand-in. -/
def isFailure (t : Ty) : Bool :=
  t.failure?.isSome

/-- Whether a generic has something bound to every variable. -/
def isBound (vars : UInt32) (bindings : List (TypeRef × Ty)) : Bool :=
  vars == 0 || !bindings.isEmpty

/-- The larger of two depths, of which either may be missing. -/
def deeper : Option Nat → Option Nat → Option Nat
  | none, d => d
  | d, none => d
  | some a, some b => some (max a b)

/-- The largest of some depths. -/
def deepest (depths : List (Option Nat)) : Option Nat :=
  depths.foldr deeper none

/-- A depth as seen from outside a generic that binds its innermost level. -/
def lower : Option Nat → Option Nat
  | some (d + 1) => some d
  | _ => none

/-- The largest depth of a variable that is free in a type, measured from outside the type. -/
def freeDepth : Ty → Option Nat :=
  fold fun t depths =>
    match t.kind, depths with
    | .var v, _ => some v.depth.toNat
    | .generic .., inner :: bindings => deeper (lower inner) (deepest bindings)
    | _, depths => deepest depths

/-- Whether a type is a stand-in or has one among its parts. -/
def hasFailure : Ty → Bool :=
  fold fun t parts => t.isFailure || parts.any id

/-- Whether a type has no free variables and every part of it can be given a value. A generic
needs something bound to its variables; what its parts are does not matter, since its values
belong to its instance. -/
def isInhabited : Ty → Bool :=
  fold fun t parts =>
    t.freeDepth.isNone &&
      match t.kind with
      | .generic _ _ vars bindings => isBound vars bindings
      | .var _ | .failure _ => false
      | _ => parts.all id

end Ty

end TypedTree
