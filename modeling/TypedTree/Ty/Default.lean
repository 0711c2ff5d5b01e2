import TypedTree.Subtyping

/-!
# Default values

Every inhabited type has a value to start with: `false`, the number nearest to zero, the empty
text, the first member; a record with its optional fields inactive, the fields of the initial
tag, as many default items as an array starts with, the default of the initial summand, the
default of the instance of a generic. A mapping starts without rules and answers with the input
if its types allow that.

## Main definitions

* `Ty.default`: the default value of a type.
* `Ty.valueFor`: the default value of a generic under other bindings.
-/

namespace TypedTree

namespace Attempt

/-- A binding must resolve to a type without free variables. -/
def checkBinding (ref : TypeRef) : Attempt Ty := do
  let t ← resolve ref
  match t.freeDepth with
  | some depth => throw (.unresolvedVariable 0 depth)
  | none => pure t

end Attempt

namespace Ty

/-- The fields of a tag: those that `previous` holds keep their values, the others get their
defaults. -/
def fill (default : Ty → Attempt Value) (fields : List (Ident × Ty)) (tag : Tag)
    (previous : Fields) : Attempt Value := do
  let vs ← Attempt.each (fun f => do
    match Fields.get? previous f.1 with
    | some v => pure (f.1, v)
    | none => do
      let v ← default f.2
      pure (f.1, v)) (tagFields fields tag)
  pure (.variant tag.id vs)

/-- The slots that a record starts with. -/
def initialSlots (default : Ty → Attempt Value) (fields : List (Field Ty)) : Attempt Slots :=
  Attempt.each (fun f =>
    if f.optional then pure (f.id, none)
    else do
      let v ← default f.type
      pure (f.id, some v)) fields

/-- The value of a generic under bindings, given how to find the default of its instance. -/
def boundValue (default : Ty → Attempt Value) (body : TypeRef) (vars : UInt32)
    (bindings : List TypeRef) : Attempt Value := do
  let _ ← Attempt.each Attempt.checkBinding bindings
  let t ← Attempt.expand body vars bindings
  let v ← default t
  pure (.generic bindings v)

/-- The default value of a type. Parts and instances weigh less than the type; what does not is
not followed. -/
def default (t : Ty) : Attempt Value :=
  let bound := t.ref.weight
  let within (x : Ty) : Attempt Value :=
    if _h : x.ref.weight < bound then x.default
    else Attempt.invalid t.name "nested too deeply"
  match t.kind with
  | .bool => pure (.bool false)
  | .int r => pure (.int r.default)
  | .rational r => pure (.rational r.default)
  | .text => pure (.text "")
  | .enumeration e => pure e.default
  | .record fields => do
    let slots ← initialSlots within fields
    pure (.record slots)
  | .variant fields _ initial => fill within fields initial []
  | .array element size => do
    let v ← within element
    pure (.array (List.replicate size.initial.toNat v))
  | .sum summands initial =>
    match summands[initial.toNat]? with
    | some s => do
      let v ← within s
      pure (.sum initial v)
    | none => Attempt.invalid t.name ("no summand " ++ toString initial.toNat)
  | .tuple slots => do
    let vs ← Attempt.each within slots
    pure (.tuple vs)
  | .generic body _ vars bindings =>
    if isBound vars bindings then boundValue within body vars (bindings.map (·.1))
    else throw (.unresolvedVariable 0 0)
  | .map source target => do
    let o ← Attempt.relate source target
    if o.isSubtype then pure (.map (.ofFallback .itself))
    else do
      let v ← within target
      pure (.map (.ofFallback (.fixed v)))
  | .var v => throw v.unresolved
  | .failure e => throw (Registry.standInError t.ref e)
termination_by t.ref.weight

/-- The default value of a generic under bindings of the caller's choice. -/
def valueFor (body : TypeRef) (vars : UInt32) (bindings : List TypeRef) : Attempt Value :=
  boundValue Ty.default body vars bindings

end Ty

end TypedTree
