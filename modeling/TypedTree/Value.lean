import TypedTree.Ident
import TypedTree.Mapping
import TypedTree.Rational

/-!
# Values and type references

A `Value` is plain data: scalars, identifiers and texts, and the compound forms that types give
to it. It carries no type of its own. A `TypeRef` names a type: a primitive, or a constructor
applied to type arguments and value arguments. The two are defined together, because values are
arguments of references and a generic value records the references it was made with.

## Main definitions

* `Value`, `TypeRef`: the data.
* `Value.kindName`: the form of a value, as error messages call it.
* `Value.numericCmp`: the order of numbers among values.
* `TypeRef.withTypes`: the same reference with other type arguments.
-/

namespace TypedTree

mutual

/-- Plain data. -/
inductive Value where
  | void
  | bool (b : Bool)
  | int (n : Int64)
  | rational (q : Rational)
  | ident (id : Ident)
  | text (s : String)
  | array (items : List Value)
  | tuple (items : List Value)
  /-- One slot per field; an inactive field has no value. -/
  | record (slots : List (Ident × Option Value))
  /-- The fields of the chosen tag. -/
  | variant (tag : Ident) (fields : List (Ident × Value))
  /-- The summand at an index. -/
  | sum (index : UInt32) (value : Value)
  /-- The value of a generic's body under bindings for its variables. -/
  | generic (bindings : List TypeRef) (inner : Value)
  | map (table : Mapping Value)

/-- The name of a type. -/
inductive TypeRef where
  | primitive (id : GlobalId)
  /-- A constructor applied to types and values. -/
  | constructed (constructor : GlobalId) (types : List TypeRef) (values : List Value)

end

instance : Inhabited Value := ⟨.void⟩
instance : Inhabited TypeRef := ⟨.primitive default⟩

/-- The slots of a record value. -/
abbrev Slots := List (Ident × Option Value)

/-- The fields of a variant value. -/
abbrev Fields := List (Ident × Value)

namespace Value

/-- The form of a value, as error messages call it. -/
def kindName : Value → String
  | .void => "void"
  | .bool _ => "bool"
  | .int _ => "int"
  | .rational _ => "rational"
  | .ident _ => "ident"
  | .text _ => "text"
  | .array _ => "array"
  | .tuple _ => "tuple"
  | .record _ => "record"
  | .variant .. => "variant"
  | .sum .. => "sum"
  | .generic .. => "generic"
  | .map _ => "map"

/-- The truth value of a `bool`. -/
def bool? : Value → Option Bool
  | .bool b => some b
  | _ => none

/-- The number of an `int`. -/
def int? : Value → Option Int64
  | .int n => some n
  | _ => none

/-- The number of a `rational`. -/
def rational? : Value → Option Rational
  | .rational q => some q
  | _ => none

/-- The name of an `ident`. -/
def ident? : Value → Option Ident
  | .ident id => some id
  | _ => none

/-- The items of an `array`. -/
def array? : Value → Option (List Value)
  | .array items => some items
  | _ => none

/-- The items of a `tuple`. -/
def tuple? : Value → Option (List Value)
  | .tuple items => some items
  | _ => none

/-- The slots of a `record`. -/
def record? : Value → Option Slots
  | .record slots => some slots
  | _ => none

/-- The tag and the fields of a `variant`. -/
def variant? : Value → Option (Ident × Fields)
  | .variant tag fields => some (tag, fields)
  | _ => none

/-- The index and the content of a `sum`. -/
def sum? : Value → Option (UInt32 × Value)
  | .sum index value => some (index, value)
  | _ => none

/-- The bindings and the content of a `generic`. -/
def generic? : Value → Option (List TypeRef × Value)
  | .generic bindings inner => some (bindings, inner)
  | _ => none

/-- The rules of a `map`. -/
def map? : Value → Option (Mapping Value)
  | .map table => some table
  | _ => none

/-- The number that a value is; integers and rationals are numbers. -/
def number? : Value → Option Rational
  | .int n => some (.ofInt64 n)
  | .rational q => some q
  | _ => none

/-- The order of two values as numbers. -/
def numericCmp (a b : Value) : Option Ordering := do
  let x ← a.number?
  let y ← b.number?
  some (x.cmp y)

/-- Whether two values are numbers in ascending order, equality allowed. -/
def numericLE (a b : Value) : Bool :=
  (a.numericCmp b).any Ordering.isLE

end Value

namespace Slots

/-- The active fields with their values, in slot order. -/
def active (slots : Slots) : Fields :=
  slots.filterMap fun s => s.2.map (s.1, ·)

/-- The value in the first slot under a name, if that slot is active. -/
def get? (slots : Slots) (id : Ident) : Option Value :=
  (slots.lookup id).join

/-- Where the first slot under a name stands. -/
def position? (slots : Slots) (id : Ident) : Option Nat :=
  slots.findIdx? (·.1 == id)

/-- Put content into the first slot under a name. -/
def set (id : Ident) (content : Option Value) : Slots → Slots
  | [] => []
  | s :: rest => if s.1 = id then (s.1, content) :: rest else s :: set id content rest

/-- Put content into the first slot under a name, adding the slot at the end if there is none. -/
def put (slots : Slots) (id : Ident) (content : Option Value) : Slots :=
  if (slots.position? id).isSome then slots.set id content else slots ++ [(id, content)]

/-- Give the active field at an index another value, counting active fields only. -/
def setActive? (value : Value) : Nat → Slots → Option Slots
  | _, [] => none
  | n, (id, none) :: rest => (setActive? value n rest).map ((id, none) :: ·)
  | 0, (id, some _) :: rest => some ((id, some value) :: rest)
  | n + 1, (id, some v) :: rest => (setActive? value n rest).map ((id, some v) :: ·)

end Slots

namespace Fields

/-- The value of the first field under a name. -/
def get? (fields : Fields) (id : Ident) : Option Value :=
  fields.lookup id

end Fields

namespace TypeRef

/-- The primitive or constructor that a reference is about. -/
def id : TypeRef → GlobalId
  | .primitive id => id
  | .constructed c _ _ => c

/-- Whether a reference names a primitive. -/
def isPrimitive : TypeRef → Bool
  | .primitive _ => true
  | .constructed .. => false

/-- The constructor that a reference applies. -/
def constructor? : TypeRef → Option GlobalId
  | .primitive _ => none
  | .constructed c _ _ => some c

/-- The type arguments. -/
def types : TypeRef → List TypeRef
  | .primitive _ => []
  | .constructed _ types _ => types

/-- The value arguments. -/
def values : TypeRef → List Value
  | .primitive _ => []
  | .constructed _ _ values => values

/-- The same reference with other type arguments; a primitive has none to change. -/
def withTypes : TypeRef → List TypeRef → TypeRef
  | .primitive id, _ => .primitive id
  | .constructed c _ values, types => .constructed c types values

end TypeRef

end TypedTree
