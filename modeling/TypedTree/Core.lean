import TypedTree.Value

/-!
# The core namespace

The names of the primitive types and type constructors that every full type system has, and
functions that write references to them. Writing a reference checks nothing: whether it names a
type is found out when it is resolved.

## Main definitions

* `Core.bool`, …, `Core.map`: the names.
* `TypeRef.bool`, …, `TypeRef.map`: the references.
* `TypeRef.VariantBuilder`: a reference to a variant, tag by tag.
-/

namespace TypedTree

namespace Core

/-- A name of the core namespace. -/
def id (name : String) : GlobalId :=
  ⟨⟨"core"⟩, ⟨name⟩⟩

def bool : GlobalId := id "bool"
def int : GlobalId := id "int"
def rational : GlobalId := id "rational"
def text : GlobalId := id "text"
def intRange : GlobalId := id "int_range"
def rationalRange : GlobalId := id "rational_range"
def enumeration : GlobalId := id "enum"
def record : GlobalId := id "record"
def variant : GlobalId := id "variant_record"
def array : GlobalId := id "array"
def sum : GlobalId := id "sum"
def tuple : GlobalId := id "tuple"
def generic : GlobalId := id "generic"
def var : GlobalId := id "var"
def map : GlobalId := id "map"

end Core

/-- A natural number as a value argument. -/
def Value.count (n : Nat) : Value :=
  .int (.ofNat n)

/-- Identifiers as a value argument. -/
def Value.idents (ids : List Ident) : Value :=
  .array (ids.map .ident)

namespace TypeRef

/-- Truth values. -/
def bool : TypeRef := .primitive Core.bool

/-- All 64-bit whole numbers. -/
def int : TypeRef := .primitive Core.int

/-- All rationals. -/
def rational : TypeRef := .primitive Core.rational

/-- All texts. -/
def text : TypeRef := .primitive Core.text

/-- The whole numbers between two bounds. -/
def intRange (min max : Int64) : TypeRef :=
  .constructed Core.intRange [] [.int min, .int max]

/-- The rationals between two bounds. -/
def rationalRange (min max : Rational) : TypeRef :=
  .constructed Core.rationalRange [] [.rational min, .rational max]

/-- Identifiers, and perhaps a blank. -/
def enumeration (members : List Ident) (blank : Bool) : TypeRef :=
  .constructed Core.enumeration [] [.idents members, .bool blank]

/-- A field of a record to be referred to. -/
structure RecordField where
  id : Ident
  type : TypeRef
  optional : Bool

/-- Named fields in order. -/
def record (fields : List RecordField) : TypeRef :=
  .constructed Core.record (fields.map (·.type))
    [.idents (fields.map (·.id)), .array (fields.map fun f => .bool f.optional)]

/-- Items of one type, their number bounded. -/
def array (element : TypeRef) (min max initial : UInt32) : TypeRef :=
  .constructed Core.array [element] [.count min.toNat, .count max.toNat, .count initial.toNat]

/-- Any number of items of one type. -/
def list (element : TypeRef) : TypeRef :=
  array element 0 (.ofNat (UInt32.size - 1)) 0

/-- One of several types at a time. -/
def sum (summands : List TypeRef) (initial : UInt32) : TypeRef :=
  .constructed Core.sum summands [.count initial.toNat]

/-- A fixed number of items, each of its own type. -/
def tuple (slots : List TypeRef) : TypeRef :=
  .constructed Core.tuple slots []

/-- A body with variables. -/
def generic (body : TypeRef) (vars : UInt32) : TypeRef :=
  .constructed Core.generic [body] [.count vars.toNat]

/-- A body with variables and something bound to them. -/
def genericBound (body : TypeRef) (vars : UInt32) (bindings : List TypeRef) : TypeRef :=
  .constructed Core.generic (body :: bindings) [.count vars.toNat]

/-- A variable of the generic that is `depth` levels further out than the innermost one. -/
def var (index depth : UInt32) : TypeRef :=
  .constructed Core.var [] [.count index.toNat, .count depth.toNat]

/-- Rules from one type to another. -/
def map (source target : TypeRef) : TypeRef :=
  .constructed Core.map [source, target] []

/-- A variant under construction. Fields are declared once and tags point to them, so a field
that several tags name is shared. -/
structure VariantBuilder where
  /-- Each distinct field, in order of first mention and with the type given there. -/
  fields : List (Ident × TypeRef)
  /-- The tags with the positions of their fields. -/
  tags : List (Ident × List Nat)
  /-- The position of the tag that values start with. -/
  initial : Nat

namespace VariantBuilder

/-- A variant without tags. -/
def empty : VariantBuilder := ⟨[], [], 0⟩

/-- The position of a field, declaring it if it is new. -/
def declare (fields : List (Ident × TypeRef)) (id : Ident) (type : TypeRef) :
    List (Ident × TypeRef) × Nat :=
  match fields.findIdx? (·.1 == id) with
  | some pos => (fields, pos)
  | none => (fields ++ [(id, type)], fields.length)

/-- The positions of several fields, declaring those that are new. -/
def declareAll : List (Ident × TypeRef) → List (Ident × TypeRef) →
    List (Ident × TypeRef) × List Nat
  | fields, [] => (fields, [])
  | fields, (id, type) :: rest =>
    let (fields, pos) := declare fields id type
    let (fields, positions) := declareAll fields rest
    (fields, pos :: positions)

/-- Add a tag with its fields. -/
def tag (b : VariantBuilder) (id : Ident) (fields : List (Ident × TypeRef)) : VariantBuilder :=
  let (declared, positions) := declareAll b.fields fields
  { b with fields := declared, tags := b.tags ++ [(id, positions)] }

/-- Choose the tag that values start with; an unknown tag changes nothing. -/
def startWith (b : VariantBuilder) (id : Ident) : VariantBuilder :=
  match b.tags.findIdx? (·.1 == id) with
  | some pos => { b with initial := pos }
  | none => b

/-- The reference to the variant. -/
def build (b : VariantBuilder) : TypeRef :=
  .constructed Core.variant (b.fields.map (·.2))
    [.idents (b.fields.map (·.1)), .idents (b.tags.map (·.1)),
      .array (b.tags.map fun t => .array (t.2.map .count)), .count b.initial]

end VariantBuilder

end TypeRef

end TypedTree
