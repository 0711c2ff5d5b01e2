import TypedTree.Ty.Check

/-!
# Edits of compound values

The changes that a type offers for its values. Each checks what it needs, takes what it adds
from defaults, and gives a new value:

* arrays grow with default items and shrink within their bounds;
* a variant switches its tag and keeps the fields that both tags list;
* a sum switches its summand and starts it anew;
* an optional record field is switched on or off;
* a generic value is bound to another type and keeps its content if that is still valid;
* the rules and the fallback of a mapping are changed entry by entry.

## Main definitions

* `ArrayEdit`, `VariantEdit`, …: the changes, per kind.
* `Edit`: all of them.
* `Ty.edit?`: carry out a change, if the type is of the kind that it is for.
-/

namespace TypedTree

namespace Attempt

variable {α : Type}

/-- Whether an attempt succeeds. -/
def succeeds (x : Attempt α) : Attempt Bool :=
  ExceptT.lift ((fun r => match r with
    | .ok _ => true
    | .error _ => false) <$> ExceptT.run x)

/-- Go on with a changed mapping, unless the change was refused. -/
def ofMapping (name : String) (v : Value)
    (change : Mapping Value → Except MapError (Mapping Value)) : Attempt Value :=
  match v with
  | .map table =>
    match change table with
    | .ok table => pure (.map table)
    | .error e => throw (.map e)
  | _ => invalid name "expected a map"

end Attempt

/-- A change to the length of an array. -/
inductive ArrayEdit where
  /-- Cut the end off or add default items there. -/
  | resize (size : UInt32)
  /-- Add a default item before a position. -/
  | insert (pos : Nat)
  /-- Take out the item at a position. -/
  | remove (pos : Nat)

namespace ArrayEdit

/-- Carry out a change, given the name, element type and bounds of the array type. -/
def apply (name : String) (element : Ty) (size : SizeBounds) (v : Value) :
    ArrayEdit → Attempt Value
  | .resize n => do
    Attempt.ofExcept (size.check n)
    match v with
    | .array items =>
      if items.length = n.toNat then pure v
      else if n.toNat < items.length then pure (.array (items.take n.toNat))
      else do
        let item ← element.default
        pure (.array (items ++ List.replicate (n.toNat - items.length) item))
    | _ => Attempt.invalid name "expected an array"
  | .insert pos =>
    match v with
    | .array items =>
      if items.length < pos then
        Attempt.invalid name ("insert position " ++ toString pos ++ " past the end (" ++
          toString items.length ++ ")")
      else do
        Attempt.ofExcept (size.check (saturate (items.length + 1)))
        let item ← element.default
        pure (.array (items.insertIdx pos item))
    | _ => Attempt.invalid name "expected an array"
  | .remove pos =>
    match v with
    | .array items =>
      if items.length ≤ pos then
        Attempt.invalid name ("no element at " ++ toString pos ++ " (length " ++
          toString items.length ++ ")")
      else do
        Attempt.ofExcept (size.check (saturate (items.length - 1)))
        pure (.array (items.eraseIdx pos))
    | _ => Attempt.invalid name "expected an array"

end ArrayEdit

namespace Ty

/-- Switch a variant to another tag. Fields that the old value holds keep their values. -/
def selectTag (name : String) (declared : List (Ident × Ty)) (tags : List Tag) (v : Value)
    (tag : Ident) : Attempt Value :=
  match tag? tags tag with
  | none => Attempt.invalid name ("unknown tag `" ++ tag.text ++ "`")
  | some d =>
    match v with
    | .variant current fields =>
      if current = tag then pure v else fill Ty.default declared d fields
    | _ => Attempt.invalid name "expected a variant record"

/-- Switch a sum to another summand. -/
def selectSummand (name : String) (summands : List Ty) (v : Value) (index : UInt32) :
    Attempt Value :=
  match summands[index.toNat]? with
  | none => Attempt.invalid name ("no summand " ++ toString index.toNat ++ " (have " ++
      toString summands.length ++ ")")
  | some s =>
    match v with
    | .sum current _ =>
      if current = index then pure v
      else do
        let inner ← s.default
        pure (.sum index inner)
    | _ => Attempt.invalid name "expected a sum"

/-- Switch a record field on or off; only an optional field can be switched off. -/
def setActive (name : String) (fields : List (Field Ty)) (v : Value) (id : Ident)
    (active : Bool) : Attempt Value :=
  match fields.find? (·.id == id) with
  | none => Attempt.invalid name ("no field `" ++ id.text ++ "`")
  | some f =>
    if !f.optional && !active then
      Attempt.invalid name ("field `" ++ id.text ++ "` is required and cannot be deactivated")
    else
      match v with
      | .record slots =>
        if (Slots.get? slots id).isSome = active then pure v
        else if active then do
          let content ← f.type.default
          pure (.record (Slots.set id (some content) slots))
        else pure (.record (Slots.set id none slots))
      | _ => Attempt.invalid name "expected a record"

/-- Bind a variable of a generic value to another type. The content stays if the new instance
has it, and starts anew otherwise. -/
def bindVariable (name : String) (body : TypeRef) (vars : UInt32) (v : Value) (index : UInt32)
    (binding : TypeRef) : Attempt Value :=
  if vars ≤ index then
    Attempt.invalid name ("no type variable " ++ toString index.toNat ++ " (have " ++
      toString vars.toNat ++ ")")
  else
    match v with
    | .generic current inner => do
      let _ ← Attempt.checkBinding binding
      let bindings := current.set index.toNat binding
      let t ← Attempt.expand body vars bindings
      if ← (t.check inner).succeeds then pure (.generic bindings inner)
      else do
        let inner ← t.default
        pure (.generic bindings inner)
    | _ => Attempt.invalid name "expected a generic value"

end Ty

/-- A change to a mapping of values. -/
inductive MapEdit where
  | insert (pos : Nat) (entry : Entry Value)
  | remove (pos : Nat)
  | setFallback (fallback : Target Value)

namespace MapEdit

/-- The position at which a new fallback is checked: that of the old one. -/
def fallbackPosition : Value → Nat
  | .map table => table.rules.length
  | _ => 0

/-- Carry out a change, given the name, source and target of the mapping type. What is added is
checked first. -/
def apply (name : String) (source target : Ty) (v : Value) : MapEdit → Attempt Value
  | .insert pos entry => do
    entry.checkAt name source target pos
    Attempt.ofMapping name v (·.insert pos entry)
  | .remove pos => Attempt.ofMapping name v fun table => (table.remove pos).map (·.2)
  | .setFallback fallback => do
    Target.checkAt name source target (fallbackPosition v) fallback
    Attempt.ofMapping name v fun table => .ok (table.setFallback fallback)

end MapEdit

/-- A change to a compound value. -/
inductive Edit where
  | array (e : ArrayEdit)
  | selectTag (tag : Ident)
  | selectSummand (index : UInt32)
  | setActive (field : Ident) (active : Bool)
  | bindVariable (index : UInt32) (binding : TypeRef)
  | map (e : MapEdit)

namespace Edit

/-- The kind of type that a change is for. -/
def kindName : Edit → String
  | .array _ => "array"
  | .selectTag _ => "variant"
  | .selectSummand _ => "sum"
  | .setActive .. => "record"
  | .bindVariable .. => "generic"
  | .map _ => "map"

end Edit

namespace Ty

/-- Carry out a change to a value of a type, if the type is of the kind that the change is
for. -/
def edit? (t : Ty) (v : Value) (e : Edit) : Option (Attempt Value) :=
  match t.kind, e with
  | .array element size, .array e => some (e.apply t.name element size v)
  | .variant declared tags _, .selectTag tag => some (selectTag t.name declared tags v tag)
  | .sum summands _, .selectSummand index => some (selectSummand t.name summands v index)
  | .record fields, .setActive field active => some (setActive t.name fields v field active)
  | .generic body _ vars _, .bindVariable index binding =>
    some (bindVariable t.name body vars v index binding)
  | .map source target, .map e => some (e.apply t.name source target v)
  | _, _ => none

end Ty

end TypedTree
