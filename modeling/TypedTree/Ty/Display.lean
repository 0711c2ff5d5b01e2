import TypedTree.Subtyping

/-!
# Displaying values

The form in which a value is shown at its type. Unlike the plain written form, a sum shows the
name of its summand, a generic value only its content, and a variant without fields only its
tag. A value that does not have the form of the type is shown in its plain form.

## Main definitions

* `Ty.display`: the shown form.
-/

namespace TypedTree

mutual

/-- Show a value at a type. -/
def Value.displayAt (v : Value) (t : Ty) : Inquiry String :=
  match t.kind, v with
  | .record fields, .record slots => do
    let shown ← Slots.displayAt fields slots
    pure (braced (commaList shown))
  | .variant declared _ _, .variant tag fields =>
    if fields.isEmpty then pure tag.text
    else do
      let shown ← Fields.displayAt declared fields
      pure (tag.text ++ braced (commaList shown))
  | .array element _, .array items => do
    let shown ← Value.displayAll element items
    pure ("[" ++ commaList shown ++ "]")
  | .sum summands _, .sum index inner =>
    match summands[index.toNat]? with
    | some s => do
      let shown ← inner.displayAt s
      pure (s.name ++ ": " ++ shown)
    | none => pure (Value.sum index inner).render
  | .tuple slots, .tuple items => do
    let shown ← Value.displayEach items slots
    pure ("(" ++ commaList shown ++ ")")
  | .generic body _ vars _, .generic bindings inner => do
    match ← (Attempt.expand body vars bindings).run with
    | .ok s => inner.displayAt s
    | .error _ => pure (Value.generic bindings inner).render
  | _, v => pure v.render
termination_by structural v

/-- Show the items of an array. -/
def Value.displayAll (element : Ty) : List Value → Inquiry (List String)
  | [] => pure []
  | v :: rest => do
    let shown ← v.displayAt element
    let others ← Value.displayAll element rest
    pure (shown :: others)
termination_by structural vs => vs

/-- Show the items of a tuple, as many as there are types. -/
def Value.displayEach : List Value → List Ty → Inquiry (List String)
  | v :: rest, t :: types => do
    let shown ← v.displayAt t
    let others ← Value.displayEach rest types
    pure (shown :: others)
  | _, _ => pure []
termination_by structural vs => vs

/-- Show the active slots of a record, each with its name. -/
def Slots.displayAt (fields : List (Field Ty)) :
    List (Ident × Option Value) → Inquiry (List String)
  | [] => pure []
  | (_, none) :: rest => Slots.displayAt fields rest
  | (id, some v) :: rest => do
    let shown ← match fields.find? (·.id == id) with
      | some f => v.displayAt f.type
      | none => pure v.render
    let others ← Slots.displayAt fields rest
    pure ((id.text ++ ": " ++ shown) :: others)
termination_by structural slots => slots

/-- Show the fields of a variant, each with its name. -/
def Fields.displayAt (declared : List (Ident × Ty)) :
    List (Ident × Value) → Inquiry (List String)
  | [] => pure []
  | (id, v) :: rest => do
    let shown ← match declared.find? (·.1 == id) with
      | some f => v.displayAt f.2
      | none => pure v.render
    let others ← Fields.displayAt declared rest
    pure ((id.text ++ ": " ++ shown) :: others)
termination_by structural fields => fields

end

/-- Show a value at a type. -/
def Ty.display (t : Ty) (v : Value) : Inquiry String :=
  v.displayAt t

end TypedTree
