import TypedTree.Constructor

/-!
# The core types

The primitive types and the type constructors of the core namespace.

## Main definitions

* `PrimitiveInfo`, `Primitive`: a primitive type and what is recorded about it.
* `Core.primitives`, `Core.constructors`: the tables.
* `Core.buildRecord` and the other builders: what a constructor makes of its arguments.
-/

namespace TypedTree

/-- What is recorded about a primitive type. -/
structure PrimitiveInfo where
  id : GlobalId
  name : String
  /-- A number that identifies the type across systems. -/
  uuid : Nat
  version : UInt32
  deriving DecidableEq, Repr

/-- A primitive type; its kind has no parts. -/
structure Primitive where
  info : PrimitiveInfo
  kind : Kind Empty

namespace PrimitiveInfo

/-- The identifying number as 32 hexadecimal digits. -/
def uuidText (info : PrimitiveInfo) : String :=
  let digits := Nat.toDigits 16 info.uuid
  String.ofList (List.replicate (32 - digits.length) '0' ++ digits)

end PrimitiveInfo

namespace Core

open Constructor (Args)

/-! ## Primitives -/

/-- Truth values. -/
def boolPrimitive : Primitive :=
  ⟨⟨bool, "Bool", 0x6f1c52a00e4b4d3a9a571b1f0c1e0001, 1⟩, .bool⟩

/-- All 64-bit whole numbers. -/
def intPrimitive : Primitive :=
  ⟨⟨int, "Int", 0x6f1c52a00e4b4d3a9a571b1f0c1e0002, 1⟩, .int .full⟩

/-- All rationals. -/
def rationalPrimitive : Primitive :=
  ⟨⟨rational, "Rational", 0x6f1c52a00e4b4d3a9a571b1f0c1e0003, 1⟩, .rational .full⟩

/-- All texts. -/
def textPrimitive : Primitive :=
  ⟨⟨text, "Text", 0x6f1c52a00e4b4d3a9a571b1f0c1e0004, 1⟩, .text⟩

/-- The primitive types of every full type system. -/
def primitives : List Primitive :=
  [boolPrimitive, intPrimitive, rationalPrimitive, textPrimitive]

/-! ## Builders -/

/-- The refusal of a range without numbers. -/
def emptyRange (args : Args) (min max : String) : Except TypeError (Kind Ty) :=
  args.refuse ("empty range " ++ min ++ ".." ++ max)

/-- The whole numbers between two bounds. -/
def buildIntRange (args : Args) : Except TypeError (Kind Ty) := do
  args.expectValues 2
  let min ← args.int 0
  let max ← args.int 1
  match IntRange.make? min max with
  | some r => .ok (.int r)
  | none => emptyRange args (toString min.toInt) (toString max.toInt)

/-- The rationals between two bounds. -/
def buildRationalRange (args : Args) : Except TypeError (Kind Ty) := do
  args.expectValues 2
  let min ← args.number 0
  let max ← args.number 1
  match RationalRange.make? min max with
  | some r => .ok (.rational r)
  | none => emptyRange args min.text max.text

/-- Identifiers, and perhaps a blank; one value at least. -/
def buildEnumeration (args : Args) : Except TypeError (Kind Ty) := do
  args.expectValues 2
  let members ← args.idents 0
  let blank ← args.boolean 1
  if members.isEmpty && !blank then args.refuse "enumeration has no values"
  else .ok (.enumeration (.ofList members blank))

/-- The first identifier of a list that stood there before. -/
def firstRepeat? : List Ident → List Ident → Option Ident
  | _, [] => none
  | before, id :: rest => if id ∈ before then some id else firstRepeat? (id :: before) rest

/-- The fields of a record from their ids, types and optional flags. -/
def recordFields : List Ident → List Ty → List Bool → List (Field Ty)
  | id :: ids, type :: types, optional :: flags =>
    ⟨id, type, optional⟩ :: recordFields ids types flags
  | _, _, _ => []

/-- Fields with distinct names. -/
def buildRecord (args : Args) : Except TypeError (Kind Ty) := do
  args.expectValues 2
  let ids ← args.idents 0
  let flags ← args.booleans 1
  if ids.length ≠ args.types.length ∨ flags.length ≠ args.types.length then
    args.refuse (toString args.types.length ++ " field types, " ++ toString ids.length ++
      " field ids, " ++ toString flags.length ++ " optional flags")
  else
    match firstRepeat? [] ids with
    | some id => args.refuse ("duplicate field `" ++ id.text ++ "`")
    | none => .ok (.record (recordFields ids args.types flags))

/-- The first fault in the positions that a tag lists: one without a field, or one that stood
there before. -/
def positionFault? (tag : Ident) (declared : Nat) : List Nat → List Nat → Option String
  | _, [] => none
  | before, pos :: rest =>
    if declared ≤ pos then
      some ("tag `" ++ tag.text ++ "` references missing field " ++ toString pos)
    else if pos ∈ before then
      some ("tag `" ++ tag.text ++ "` lists field " ++ toString pos ++ " twice")
    else positionFault? tag declared (pos :: before) rest

/-- The first fault in the tags of a variant. -/
def tagFault? (declared : Nat) : List Ident → List Tag → Option String
  | _, [] => none
  | before, tag :: rest =>
    if tag.id ∈ before then some ("duplicate tag `" ++ tag.id.text ++ "`")
    else
      match positionFault? tag.id declared [] tag.fields with
      | some fault => some fault
      | none => tagFault? declared (tag.id :: before) rest

/-- A variant from its fields, its tags and the position of the tag to start with, or the first
fault in them. -/
def makeVariant (fields : List (Ident × Ty)) (tags : List Tag) (initial : Nat) :
    Except String (Kind Ty) :=
  if tags.isEmpty then .error "a variant record needs at least one tag"
  else
    match tags[initial]? with
    | none => .error ("default tag " ++ toString initial ++ " out of range")
    | some start =>
      match firstRepeat? [] (fields.map (·.1)) with
      | some id => .error ("duplicate field `" ++ id.text ++ "`")
      | none =>
        match tagFault? fields.length [] tags with
        | some fault => .error fault
        | none => .ok (.variant fields tags start)

/-- Tags that choose among fields declared once. -/
def buildVariant (args : Args) : Except TypeError (Kind Ty) := do
  args.expectValues 4
  let ids ← args.idents 0
  let tags ← args.idents 1
  let lists ← args.positionLists 2
  let initial ← args.count 3
  if ids.length ≠ args.types.length ∨ lists.length ≠ tags.length then
    args.refuse (toString args.types.length ++ " field types for " ++ toString ids.length ++
      " field ids, " ++ toString lists.length ++ " field lists for " ++ toString tags.length ++
      " tags")
  else
    match makeVariant (ids.zip args.types) ((tags.zip lists).map fun t => ⟨t.1, t.2⟩)
        initial.toNat with
    | .ok kind => .ok kind
    | .error fault => args.refuse fault

/-- The largest size that an array type may give its values to start with. -/
def maxInitialSize : UInt32 := 65536

/-- Items of one type, their number bounded. -/
def buildArray (args : Args) : Except TypeError (Kind Ty) := do
  args.expectValues 3
  let min ← args.count 0
  let max ← args.count 1
  let initial ← args.count 2
  if maxInitialSize < initial then
    args.refuse ("default size " ++ toString initial.toNat ++ " exceeds the limit of " ++
      toString maxInitialSize.toNat)
  else
    match args.types with
    | [element] =>
      if h : min ≤ initial ∧ initial ≤ max then .ok (.array element ⟨min, max, initial, h.1, h.2⟩)
      else args.refuse ("need min <= default <= max, got " ++ toString min.toNat ++ ", " ++
        toString initial.toNat ++ ", " ++ toString max.toNat)
    | types => .error (.arity args.constructor (.exactly 1) types.length)

/-- One of several types at a time. -/
def buildSum (args : Args) : Except TypeError (Kind Ty) := do
  args.expectValues 1
  let initial ← args.count 0
  if initial.toNat < args.types.length then .ok (.sum args.types initial)
  else args.refuse ("default summand " ++ toString initial.toNat ++ " out of range")

/-- A fixed number of items, each of its own type. -/
def buildTuple (args : Args) : Except TypeError (Kind Ty) := do
  args.expectValues 0
  .ok (.tuple args.types)

/-- The largest number of variables of a generic. -/
def maxVars : UInt32 := 256

/-- A body with variables, and bindings for none of them or for all. -/
def buildGeneric (args : Args) : Except TypeError (Kind Ty) := do
  args.expectValues 1
  let vars ← args.count 0
  if maxVars < vars then
    args.refuse (toString vars.toNat ++ " variables exceed the limit of " ++
      toString maxVars.toNat)
  else
    match args.refs, args.types with
    | body :: refs, inner :: types =>
      if types.isEmpty || types.length == vars.toNat then
        .ok (.generic body inner vars (refs.zip types))
      else args.refuse (toString vars.toNat ++ " variable(s) but " ++ toString types.length ++
        " binding(s)")
    | _, types => .error (.arity args.constructor (.atLeast 1) types.length)

/-- A variable. -/
def buildVar (args : Args) : Except TypeError (Kind Ty) := do
  args.expectValues 2
  let index ← args.count 0
  let depth ← args.count 1
  .ok (.var ⟨index, depth⟩)

/-- Rules from one type to another. -/
def buildMap (args : Args) : Except TypeError (Kind Ty) := do
  args.expectValues 0
  match args.types with
  | [source, target] => .ok (.map source target)
  | types => .error (.arity args.constructor (.exactly 2) types.length)

/-! ## Names -/

/-- A variable is named by its symbol. -/
def varName? (args : Args) : Option String := do
  let index ← (args.count 0).toOption
  let depth ← (args.count 1).toOption
  some (TypeVar.symbol ⟨index, depth⟩)

/-- A generic is named by its body: behind its quantified variables, or before what is bound to
them. -/
def genericName? (args : Args) : Option String := do
  let vars ← (args.count 0).toOption
  let symbols := (List.range vars.toNat).map fun i => TypeVar.symbol ⟨.ofNat i, 0⟩
  match args.types with
  | [] => none
  | [inner] => some ("∀" ++ commaList symbols ++ ". " ++ inner.name)
  | inner :: bindings =>
    some (inner.name ++ "[" ++
      commaList ((symbols.zip bindings).map fun b => b.1 ++ " := " ++ b.2.name) ++ "]")

/-! ## Constructors -/

/-- A constructor that names its types by a template, unless `name?` gives a name. -/
def constructor (id : GlobalId) (arity : Arity) (template : String)
    (build : Args → Except TypeError (Kind Ty)) (name? : Args → Option String) : Constructor :=
  let template := Template.ofString template
  { id, arity, template, build
    check := fun _ => .ok ()
    name := fun args => (name? args).getD (template.render args.types args.values) }

/-- A constructor that names its types by a template. -/
def plain (id : GlobalId) (arity : Arity) (template : String)
    (build : Args → Except TypeError (Kind Ty)) : Constructor :=
  constructor id arity template build fun _ => none

/-- The type constructors of every full type system. -/
def constructors : List Constructor :=
  [plain intRange (.exactly 0) "Int[\x7bv0\x7d..\x7bv1\x7d]" buildIntRange,
    plain rationalRange (.exactly 0) "Rational[\x7bv0\x7d..\x7bv1\x7d]" buildRationalRange,
    plain enumeration (.exactly 0) "Enum\x7b\x7b\x7bv0*:|\x7d\x7d\x7d" buildEnumeration,
    plain record (.atLeast 0) "Record\x7b\x7b\x7bv0~t:, \x7d\x7d\x7d" buildRecord,
    plain variant (.atLeast 0) "Variant\x7b\x7b\x7bv1*:|\x7d\x7d\x7d" buildVariant,
    plain array (.exactly 1) "Array<\x7bt0\x7d>[\x7bv0\x7d..\x7bv1\x7d]" buildArray,
    plain sum (.atLeast 1) "\x7bt*: | \x7d" buildSum,
    plain tuple (.atLeast 0) "(\x7bt*:, \x7d)" buildTuple,
    constructor generic (.atLeast 1) "Generic<\x7bt0\x7d>" buildGeneric genericName?,
    constructor var (.exactly 0) "Var(\x7bv0\x7d, \x7bv1\x7d)" buildVar varName?,
    plain map (.exactly 2) "Map<\x7bt0\x7d -> \x7bt1\x7d>" buildMap]

end Core

end TypedTree
