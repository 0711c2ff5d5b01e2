import TypedTree.Document
import TypedTree.Path
import TypedTree.Value

/-!
# Values as documents

How values, type references, map entries and paths are kept in documents, and how they are read
back.

A value with content is an object with one member, whose key names the form of the value; `void`
is a plain text. Structures are written as objects with all their members and may also be read
from a list that holds the members in order. Reading checks what the data promises: identifiers
are readable, rationals have a nonzero denominator and fit, whole numbers are in range, and a
mapping ends in its only fallback.

## Main definitions

* `Value.encode`, `TypeRef.encode`, `Entry.encode`, `Path.encode`: to documents.
* `Value.decode?`, `TypeRef.decode?`, `Entry.decode?`, `Path.decode?`: from documents.
-/

namespace TypedTree

namespace Document

/-- An object with one member. -/
def tagged (key : String) (content : Document) : Document :=
  .object [(key, content)]

/-- A text that names an identifier. -/
def ident? : Document → Option Ident
  | .text s => (Ident.read s).toOption
  | _ => none

/-- A text that names a global identifier. -/
def globalId? : Document → Option GlobalId
  | .text s => (GlobalId.read s).toOption
  | _ => none

/-- A whole number of signed 64 bits. -/
def int64? : Document → Option Int64
  | .integer n => if -0x8000000000000000 ≤ n ∧ n < 0x8000000000000000 then some (.ofInt n) else none
  | _ => none

/-- A whole number of unsigned 32 bits. -/
def uint32? : Document → Option UInt32
  | .integer n => if 0 ≤ n ∧ n < 0x100000000 then some (.ofNat n.toNat) else none
  | _ => none

/-- The characters of a text. -/
def text? : Document → Option String
  | .text s => some s
  | _ => none

/-- A truth value. -/
def bool? : Document → Option Bool
  | .bool b => some b
  | _ => none

/-- The items of a list. -/
def list? : Document → Option (List Document)
  | .list items => some items
  | _ => none

/-- A whole number of unsigned 64 bits. -/
def size? : Document → Option Nat
  | .integer n => if 0 ≤ n ∧ n < 0x10000000000000000 then some n.toNat else none
  | _ => none

/-- The two members of a structure, from an object or from a list. -/
def pair? (first second : String) : Document → Option (Document × Document)
  | .object members => do
    let a ← members.lookup first
    let b ← members.lookup second
    some (a, b)
  | .list [a, b] => some (a, b)
  | _ => none

end Document

/-! ## Writing -/

/-- A rational as its components. -/
def Rational.encode (q : Rational) : Document :=
  .object [("num", .integer q.num), ("den", .integer q.den)]

mutual

/-- The document of a value. -/
def Value.encode : Value → Document
  | .void => .text "void"
  | .bool b => .tagged "bool" (.bool b)
  | .int n => .tagged "int" (.integer n.toInt)
  | .rational q => .tagged "rational" q.encode
  | .ident id => .tagged "ident" (.text id.text)
  | .text s => .tagged "text" (.text s)
  | .array items => .tagged "array" (.list (Value.encodeAll items))
  | .tuple items => .tagged "tuple" (.list (Value.encodeAll items))
  | .record slots =>
    .tagged "record" (.object [("slots", .list (Slots.encodeAll slots))])
  | .variant tag fields =>
    .tagged "variant"
      (.object [("tag", .text tag.text), ("fields", .list (Fields.encodeAll fields))])
  | .sum index value =>
    .tagged "sum" (.object [("index", .integer index.toNat), ("value", value.encode)])
  | .generic bindings inner =>
    .tagged "generic"
      (.object [("bindings", .list (TypeRef.encodeAll bindings)), ("inner", inner.encode)])
  | .map table => .tagged "map" (.list (Mapping.encode table))
termination_by structural x => x

/-- The document of a type reference. -/
def TypeRef.encode : TypeRef → Document
  | .primitive id => .tagged "primitive" (.text id.text)
  | .constructed c types values =>
    .tagged "constructed"
      (.object [("constructor", .text c.text), ("types", .list (TypeRef.encodeAll types)),
        ("values", .list (Value.encodeAll values))])
termination_by structural x => x

/-- The documents of a list of values. -/
def Value.encodeAll : List Value → List Document
  | [] => []
  | v :: rest => v.encode :: Value.encodeAll rest
termination_by structural x => x

/-- The documents of a list of references. -/
def TypeRef.encodeAll : List TypeRef → List Document
  | [] => []
  | r :: rest => r.encode :: TypeRef.encodeAll rest
termination_by structural x => x

/-- The documents of record slots; an inactive slot holds a null. -/
def Slots.encodeAll : List (Ident × Option Value) → List Document
  | [] => []
  | (id, none) :: rest => .list [.text id.text, .null] :: Slots.encodeAll rest
  | (id, some v) :: rest => .list [.text id.text, v.encode] :: Slots.encodeAll rest
termination_by structural x => x

/-- The documents of variant fields. -/
def Fields.encodeAll : List (Ident × Value) → List Document
  | [] => []
  | (id, v) :: rest => .list [.text id.text, v.encode] :: Fields.encodeAll rest
termination_by structural x => x

/-- The documents of the entries of a mapping. -/
def Mapping.encode : Mapping Value → List Document
  | ⟨rules, fallback⟩ =>
    Rule.encodeAll rules ++
      [.object [("source", .text "otherwise"), ("target", Target.encode fallback)]]
termination_by structural x => x

/-- The documents of a list of rules. -/
def Rule.encodeAll : List (Rule Value) → List Document
  | [] => []
  | ⟨p, t⟩ :: rest =>
    .object [("source", Pattern.encode p), ("target", Target.encode t)] :: Rule.encodeAll rest
termination_by structural x => x

/-- The document of a pattern. -/
def Pattern.encode : Pattern Value → Document
  | .exact v => .tagged "exact" v.encode
  | .range min max => .tagged "range" (.object [("min", min.encode), ("max", max.encode)])
termination_by structural x => x

/-- The document of a target. -/
def Target.encode : Target Value → Document
  | .fixed v => .tagged "value" v.encode
  | .itself => .text "identity"
termination_by structural x => x

end

/-- The document of an entry. -/
def Entry.encode (e : Entry Value) : Document :=
  .object
    [("source", match e.pattern with
      | some p => Pattern.encode p
      | none => .text "otherwise"),
      ("target", Target.encode e.target)]

/-- The document of a step. -/
def Step.encode : Step → Document
  | .field id => .text id.text
  | .index i => .integer i.toNat

/-- The document of a path. -/
def Path.encode (p : Path) : Document :=
  .list (p.map Step.encode)

/-! ## Reading -/

/-- Read a rational from its components and bring it into lowest terms. -/
def Rational.decode? (d : Document) : Option Rational := do
  let (num, den) ← d.pair? "num" "den"
  let num ← num.int64?
  let den ← den.int64?
  (Rational.make num.toInt den.toInt).toOption

mutual

/-- Read a value. -/
def Value.decode? : Document → Option Value
  | .text s => if s = "void" then some .void else none
  | .object [(key, d)] =>
    match key, d with
    | "void", .null => some .void
    | "bool", .bool b => some (.bool b)
    | "int", d => d.int64?.map .int
    | "rational", d => (Rational.decode? d).map .rational
    | "ident", d => d.ident?.map .ident
    | "text", .text s => some (.text s)
    | "array", .list items => (Value.decodeAll? items).map .array
    | "tuple", .list items => (Value.decodeAll? items).map .tuple
    | "record", .object members => (Slots.member? "slots" members).map .record
    | "record", .list [.list slots] => (Slots.decodeAll? slots).map .record
    | "variant", .object members => do
      let tag ← members.lookup "tag"
      let tag ← tag.ident?
      let fields ← Fields.member? "fields" members
      some (.variant tag fields)
    | "variant", .list [tag, .list fields] => do
      let tag ← tag.ident?
      let fields ← Fields.decodeAll? fields
      some (.variant tag fields)
    | "sum", .object members => do
      let index ← members.lookup "index"
      let index ← index.uint32?
      let value ← Value.member? "value" members
      some (.sum index value)
    | "sum", .list [index, value] => do
      let index ← index.uint32?
      let value ← Value.decode? value
      some (.sum index value)
    | "generic", .object members => do
      let bindings ← TypeRef.listMember? "bindings" members
      let inner ← Value.member? "inner" members
      some (.generic bindings inner)
    | "generic", .list [.list bindings, inner] => do
      let bindings ← TypeRef.decodeAll? bindings
      let inner ← Value.decode? inner
      some (.generic bindings inner)
    | "map", .list entries => do
      let entries ← Entry.decodeAll? entries
      let table ← (Mapping.ofEntries entries).toOption
      some (.map table)
    | _, _ => none
  | _ => none
termination_by structural d => d

/-- Read the values of a list. -/
def Value.decodeAll? : List Document → Option (List Value)
  | [] => some []
  | d :: rest => do
    let v ← Value.decode? d
    let rest ← Value.decodeAll? rest
    some (v :: rest)
termination_by structural ds => ds

/-- Read the value under a key. -/
def Value.member? (key : String) : List (String × Document) → Option Value
  | [] => none
  | (k, d) :: rest => if k = key then Value.decode? d else Value.member? key rest
termination_by structural members => members

/-- Read the list of values under a key; a missing key stands for no values. -/
def Value.listMember? (key : String) : List (String × Document) → Option (List Value)
  | [] => some []
  | (k, d) :: rest =>
    if k = key then
      match d with
      | .list items => Value.decodeAll? items
      | _ => none
    else Value.listMember? key rest
termination_by structural members => members

/-- Read a type reference. -/
def TypeRef.decode? : Document → Option TypeRef
  | .object [(key, d)] =>
    match key, d with
    | "primitive", d => d.globalId?.map .primitive
    | "constructed", .object members => do
      let c ← members.lookup "constructor"
      let c ← c.globalId?
      let types ← TypeRef.argumentMember? "types" members
      let values ← Value.listMember? "values" members
      some (.constructed c types values)
    | "constructed", .list [c] => do
      let c ← c.globalId?
      some (.constructed c [] [])
    | "constructed", .list [c, .list types] => do
      let c ← c.globalId?
      let types ← TypeRef.decodeAll? types
      some (.constructed c types [])
    | "constructed", .list [c, .list types, .list values] => do
      let c ← c.globalId?
      let types ← TypeRef.decodeAll? types
      let values ← Value.decodeAll? values
      some (.constructed c types values)
    | _, _ => none
  | _ => none
termination_by structural d => d

/-- Read the references of a list. -/
def TypeRef.decodeAll? : List Document → Option (List TypeRef)
  | [] => some []
  | d :: rest => do
    let r ← TypeRef.decode? d
    let rest ← TypeRef.decodeAll? rest
    some (r :: rest)
termination_by structural ds => ds

/-- Read the list of references under a key, which must be there. -/
def TypeRef.listMember? (key : String) : List (String × Document) → Option (List TypeRef)
  | [] => none
  | (k, d) :: rest =>
    if k = key then
      match d with
      | .list items => TypeRef.decodeAll? items
      | _ => none
    else TypeRef.listMember? key rest
termination_by structural members => members

/-- Read the list of references under a key; a missing key stands for no references. -/
def TypeRef.argumentMember? (key : String) : List (String × Document) → Option (List TypeRef)
  | [] => some []
  | (k, d) :: rest =>
    if k = key then
      match d with
      | .list items => TypeRef.decodeAll? items
      | _ => none
    else TypeRef.argumentMember? key rest
termination_by structural members => members

/-- Read record slots; a null stands for an inactive slot. -/
def Slots.decodeAll? : List Document → Option (List (Ident × Option Value))
  | [] => some []
  | .list [id, .null] :: rest => do
    let id ← id.ident?
    let rest ← Slots.decodeAll? rest
    some ((id, none) :: rest)
  | .list [id, d] :: rest => do
    let id ← id.ident?
    let v ← Value.decode? d
    let rest ← Slots.decodeAll? rest
    some ((id, some v) :: rest)
  | _ => none
termination_by structural ds => ds

/-- Read the slots under a key. -/
def Slots.member? (key : String) :
    List (String × Document) → Option (List (Ident × Option Value))
  | [] => none
  | (k, d) :: rest =>
    if k = key then
      match d with
      | .list slots => Slots.decodeAll? slots
      | _ => none
    else Slots.member? key rest
termination_by structural members => members

/-- Read variant fields. -/
def Fields.decodeAll? : List Document → Option (List (Ident × Value))
  | [] => some []
  | .list [id, d] :: rest => do
    let id ← id.ident?
    let v ← Value.decode? d
    let rest ← Fields.decodeAll? rest
    some ((id, v) :: rest)
  | _ => none
termination_by structural ds => ds

/-- Read the fields under a key. -/
def Fields.member? (key : String) : List (String × Document) → Option (List (Ident × Value))
  | [] => none
  | (k, d) :: rest =>
    if k = key then
      match d with
      | .list fields => Fields.decodeAll? fields
      | _ => none
    else Fields.member? key rest
termination_by structural members => members

/-- Read an entry. -/
def Entry.decode? : Document → Option (Entry Value)
  | .object members => do
    let pattern ← Pattern.member? "source" members
    let target ← Target.member? "target" members
    some ⟨pattern, target⟩
  | .list [source, target] => do
    let pattern ← Pattern.decode? source
    let target ← Target.decode? target
    some ⟨pattern, target⟩
  | _ => none
termination_by structural d => d

/-- Read the entries of a list. -/
def Entry.decodeAll? : List Document → Option (List (Entry Value))
  | [] => some []
  | d :: rest => do
    let e ← Entry.decode? d
    let rest ← Entry.decodeAll? rest
    some (e :: rest)
termination_by structural ds => ds

/-- Read the source of an entry: a pattern, or nothing for a fallback. The bounds of a range are
written by name only. -/
def Pattern.decode? : Document → Option (Option (Pattern Value))
  | .text s => if s = "otherwise" then some none else none
  | .object [(key, d)] =>
    match key, d with
    | "otherwise", .null => some none
    | "exact", d => (Value.decode? d).map (some <| .exact ·)
    | "range", .object members => do
      let min ← Value.member? "min" members
      let max ← Value.member? "max" members
      some (some (.range min max))
    | _, _ => none
  | _ => none
termination_by structural d => d

/-- Read the source under a key. -/
def Pattern.member? (key : String) :
    List (String × Document) → Option (Option (Pattern Value))
  | [] => none
  | (k, d) :: rest => if k = key then Pattern.decode? d else Pattern.member? key rest
termination_by structural members => members

/-- Read a target. -/
def Target.decode? : Document → Option (Target Value)
  | .text s => if s = "identity" then some .itself else none
  | .object [(key, d)] =>
    match key, d with
    | "identity", .null => some .itself
    | "value", d => (Value.decode? d).map .fixed
    | _, _ => none
  | _ => none
termination_by structural d => d

/-- Read the target under a key. -/
def Target.member? (key : String) : List (String × Document) → Option (Target Value)
  | [] => none
  | (k, d) :: rest => if k = key then Target.decode? d else Target.member? key rest
termination_by structural members => members

end

/-- Read a step: a text is always a field, even if it looks like a number. -/
def Step.decode? (d : Document) : Option Step :=
  match d with
  | .text _ => d.ident?.map .field
  | d => d.uint32?.map .index

/-- Read a path. -/
def Path.decode? : Document → Option Path
  | .list steps => steps.mapM Step.decode?
  | _ => none

end TypedTree
