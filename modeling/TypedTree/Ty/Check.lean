import TypedTree.Ty.Default

/-!
# Checking values

Whether a type has a value. Numbers must lie in their range, identifiers among the members;
records must have exactly the declared slots in order and variants the fields of their tag; the
length of an array must be within bounds, counted up to the largest 32-bit number; a generic
value must bind every variable to a closed type and hold a value of the instance; the rules of a
mapping must lead from values of its source to values of its target.

The check follows the value down and reports the first fault.

## Main definitions

* `Ty.check`: the check.
* `Entry.checkAt`: the check of one entry of a mapping.
-/

namespace TypedTree

/-- A number, or the largest unsigned 32-bit one if it is larger. -/
def saturate (n : Nat) : UInt32 :=
  .ofNat (min n (UInt32.size - 1))

/-- Refuse a size that is out of bounds. -/
def SizeBounds.check (size : SizeBounds) (requested : UInt32) : Except TypeError Unit :=
  if size.min ≤ requested ∧ requested ≤ size.max then .ok ()
  else .error (.sizeOutOfRange requested.toNat size.min.toNat size.max.toNat)

namespace Ty

/-- Refuse a value of another form. -/
def mismatch (t : Ty) (v : Value) : Attempt Unit :=
  let wanted := match t.kind with
    | .record _ => "a record"
    | .variant .. => "a variant record"
    | .array .. => "an array"
    | .sum .. => "a sum"
    | .tuple _ => "a tuple"
    | .map .. => "a map"
    | k => "a " ++ k.name ++ " value"
  Attempt.invalid t.name ("expected " ++ wanted ++ ", found " ++ v.kindName)

end Ty

mutual

/-- Check a value at a type. -/
def Value.checkAt (v : Value) (t : Ty) : Attempt Unit :=
  match t.kind, v with
  | .bool, .bool _ | .text, .text _ => pure ()
  | .int r, .int n => .ofExcept (r.check t.name n)
  | .rational r, .rational q => .ofExcept (r.check t.name q)
  | .enumeration e, v => .ofExcept (e.check t.name v)
  | .record fields, .record slots =>
    if slots.length = fields.length then Slots.checkAt t.name slots fields
    else .invalid t.name ("expected " ++ toString fields.length ++ " field slots, found " ++
      toString slots.length)
  | .variant declared tags _, .variant tag fields =>
    match Ty.tag? tags tag with
    | none => .invalid t.name ("unknown tag `" ++ tag.text ++ "`")
    | some d =>
      if fields.length = d.fields.length then
        Fields.checkAt t.name fields (Ty.tagFields declared d)
      else .invalid t.name ("tag `" ++ d.id.text ++ "` has " ++ toString d.fields.length ++
        " fields, found " ++ toString fields.length)
  | .array element size, .array items =>
    match size.check (saturate items.length) with
    | .ok _ => Value.checkAll element items
    | .error _ => .invalid t.name ("length " ++ toString (saturate items.length).toNat ++
        " outside [" ++ toString size.min.toNat ++ ", " ++ toString size.max.toNat ++ "]")
  | .sum summands _, .sum index inner =>
    match summands[index.toNat]? with
    | some s => inner.checkAt s
    | none => .invalid t.name ("no summand " ++ toString index.toNat)
  | .tuple slots, .tuple items =>
    if items.length = slots.length then Value.checkEach items slots
    else .invalid t.name ("expected " ++ toString slots.length ++ " slots, found " ++
      toString items.length)
  | .generic body _ vars _, .generic bindings inner =>
    if bindings.length = vars.toNat then do
      let _ ← Attempt.each Attempt.checkBinding bindings
      let s ← Attempt.expand body vars bindings
      inner.checkAt s
    else .invalid t.name ("expected " ++ toString vars.toNat ++ " bindings, found " ++
      toString bindings.length)
  | .map source target, .map table => Mapping.checkAt t.name source target table
  | .var v, _ => throw v.unresolved
  | .failure e, _ => throw (Registry.standInError t.ref e)
  | _, v => t.mismatch v
termination_by structural v

/-- Check the items of an array. -/
def Value.checkAll (element : Ty) : List Value → Attempt Unit
  | [] => pure ()
  | v :: rest => do
    v.checkAt element
    Value.checkAll element rest
termination_by structural vs => vs

/-- Check the items of a tuple, each at its own type. -/
def Value.checkEach : List Value → List Ty → Attempt Unit
  | v :: rest, t :: types => do
    v.checkAt t
    Value.checkEach rest types
  | _, _ => pure ()
termination_by structural vs => vs

/-- Check the slots of a record against its fields. -/
def Slots.checkAt (name : String) :
    List (Ident × Option Value) → List (Field Ty) → Attempt Unit
  | (id, some v) :: rest, f :: fields =>
    if f.id = id then do
      v.checkAt f.type
      Slots.checkAt name rest fields
    else .invalid name ("expected field `" ++ f.id.text ++ "`, found `" ++ id.text ++ "`")
  | (id, none) :: rest, f :: fields =>
    if f.id = id then
      if f.optional then Slots.checkAt name rest fields
      else .invalid name ("required field `" ++ id.text ++ "` is inactive")
    else .invalid name ("expected field `" ++ f.id.text ++ "`, found `" ++ id.text ++ "`")
  | _, _ => pure ()
termination_by structural slots => slots

/-- Check the fields of a variant against those that its tag lists. -/
def Fields.checkAt (name : String) :
    List (Ident × Value) → List (Ident × Ty) → Attempt Unit
  | (id, v) :: rest, f :: fields =>
    if f.1 = id then do
      v.checkAt f.2
      Fields.checkAt name rest fields
    else .invalid name ("expected field `" ++ f.1.text ++ "`, found `" ++ id.text ++ "`")
  | _, _ => pure ()
termination_by structural fields => fields

/-- Check the rules and the fallback of a mapping. -/
def Mapping.checkAt (name : String) (source target : Ty) : Mapping Value → Attempt Unit
  | ⟨rules, fallback⟩ => do
    Rule.checkAll name source target 0 rules
    Target.checkAt name source target rules.length fallback
termination_by structural table => table

/-- Check rules, of which the first stands at position `pos`. -/
def Rule.checkAll (name : String) (source target : Ty) (pos : Nat) :
    List (Rule Value) → Attempt Unit
  | [] => pure ()
  | ⟨p, t⟩ :: rest => do
    Pattern.checkAt name source pos p
    Target.checkAt name source target pos t
    Rule.checkAll name source target (pos + 1) rest
termination_by structural rules => rules

/-- Check the inputs that a rule is for. -/
def Pattern.checkAt (name : String) (source : Ty) (pos : Nat) : Pattern Value → Attempt Unit
  | .exact v => v.checkAt source
  | .range min max => do
    min.checkAt source
    max.checkAt source
    match min.numericCmp max with
    | some .gt => .invalid name ("entry " ++ toString pos ++ ": range " ++ min.render ++ ".." ++
        max.render ++ " is empty")
    | some _ => pure ()
    | none => .invalid name ("entry " ++ toString pos ++ ": range bounds must be numbers")
termination_by structural p => p

/-- Check the answer of a rule or fallback. The input itself is an answer only if every input is
a value of the target. -/
def Target.checkAt (name : String) (source target : Ty) (pos : Nat) :
    Target Value → Attempt Unit
  | .fixed v => v.checkAt target
  | .itself => do
    let o ← Attempt.relate source target
    if o.isSubtype then pure ()
    else .invalid name ("entry " ++ toString pos ++ ": identity target needs `" ++ source.name ++
      "` to be a subtype of `" ++ target.name ++ "`")
termination_by structural t => t

end

/-- Check an entry of a mapping at position `pos`. -/
def Entry.checkAt (name : String) (source target : Ty) (pos : Nat) (e : Entry Value) :
    Attempt Unit := do
  match e.pattern with
  | some p => Pattern.checkAt name source pos p
  | none => pure ()
  Target.checkAt name source target pos e.target

/-- Check that a type has a value. -/
def Ty.check (t : Ty) (v : Value) : Attempt Unit :=
  v.checkAt t

end TypedTree
