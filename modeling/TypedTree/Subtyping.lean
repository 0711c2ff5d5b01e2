import TypedTree.Inquiry

/-!
# Subtyping

How two resolved types relate follows from their kinds. The kind on the left is asked first; if
it has no opinion, the kind on the right is asked about the left and its answer reversed; if
neither has one, the types are unrelated. A stand-in relates to nothing, and a type is equivalent
to itself.

* Ranges and enumerations relate as their values do.
* A record is a subtype if it has every field of the other that may not be missing, at a subtype,
  and requires what the other requires.
* Variants must have the same tags; then the fields of each tag decide.
* Arrays relate as their elements and tuples as all of their slots.
* A sum is a subtype if each of its summands is a subtype of some summand of the other.
* Mappings need related sources and then relate as their targets.
* A generic with everything bound relates as its instance. Two generics with nothing bound and
  equally many variables relate as their bodies, and a variable only to itself.

## Main definitions

* `Ty.judge`: the rules, as an inquiry about the parts.
* `Registry.compare`: how two types relate, by recursion on what they weigh.
-/

namespace TypedTree

/-- The reference to the instance of a generic under bindings for its variables; too few
bindings leave a variable with nothing. -/
def TypeRef.expandBy (write : TypeRef.Writer) (body : TypeRef) (vars : UInt32)
    (bindings : List TypeRef) : Except TypeError TypeRef :=
  if bindings.length < vars.toNat then .error (.unresolvedVariable bindings.length 0)
  else body.instantiateBy write bindings

/-- The reference to the instance of a generic, in which depths that get too large are marked. -/
def TypeRef.expand (body : TypeRef) (vars : UInt32) (bindings : List TypeRef) :
    Except TypeError TypeRef :=
  body.expandBy varAt vars bindings

namespace Attempt

/-- The instance of a generic under bindings for its variables. -/
def expand (body : TypeRef) (vars : UInt32) (bindings : List TypeRef) : Attempt Ty := do
  let ref ← ofExcept (body.expand vars bindings)
  resolve ref

end Attempt

namespace Ty

open Inquiry

/-- Whether the first type is a subtype of the second. -/
def isBelow (a b : Ty) : Inquiry Bool := do
  let o ← relate a b
  pure o.isSubtype

/-- Whether a record with some fields has what a record with other fields asks for. -/
def recordFits (mine want : List (Field Ty)) : Inquiry Bool :=
  all (fun w =>
    match mine.find? (·.id == w.id) with
    | some h => if w.optional || !h.optional then isBelow h.type w.type else pure false
    | none => pure w.optional) want

/-- The tag under a name. -/
def tag? (tags : List Tag) (id : Ident) : Option Tag :=
  tags.find? (·.id == id)

/-- The fields that a tag lists. -/
def tagFields (fields : List (Ident × Ty)) (t : Tag) : List (Ident × Ty) :=
  t.fields.filterMap (fields[·]?)

/-- Whether some fields include all of others, each at a subtype. -/
def fieldsFit (mine want : List (Ident × Ty)) : Inquiry Bool :=
  all (fun w =>
    match mine.find? (·.1 == w.1) with
    | some h => isBelow h.2 w.2
    | none => pure false) want

/-- For each of the first tags, whether its fields fit those of the second variant's tag of that
name, and the other way round. -/
def tagsFit (fields : List (Ident × Ty)) (others : List (Ident × Ty)) (theirs : List Tag) :
    List Tag → Inquiry (Bool × Bool)
  | [] => pure (true, true)
  | t :: rest => do
    let mine := tagFields fields t
    let their := ((tag? theirs t.id).map (tagFields others)).getD []
    let down ← fieldsFit mine their
    let up ← fieldsFit their mine
    let (downs, ups) ← tagsFit fields others theirs rest
    pure (down && downs, up && ups)

/-- Whether each of some types is a subtype of one of others. -/
def covered (mine theirs : List Ty) : Inquiry Bool :=
  all (fun m => any (fun t => isBelow m t) theirs) mine

/-- How lists of equally many types relate, place by place; `soFar` is the answer for the
places before. -/
def slotsRelate (soFar : Inclusion) : List Ty → List Ty → Inquiry Inclusion
  | a :: as, b :: bs => do
    let o ← relate a b
    slotsRelate (soFar.meet o) as bs
  | _, _ => pure soFar

/-- Go on with the instance of a generic; without one the types are unrelated. -/
def withInstance (body : TypeRef) (vars : UInt32) (bindings : List (TypeRef × Ty))
    (next : Ty → Inquiry Inclusion) : Inquiry Inclusion := do
  match ← (Attempt.expand body vars (bindings.map (·.1))).run with
  | .ok t => next t
  | .error _ => pure .unrelated

/-- What a generic with nothing bound thinks of another type. -/
def openGeneric (me : Ty) (inner : Ty) (vars : UInt32) (other : Ty) : Inquiry Inclusion :=
  match other.kind with
  | .generic body inner' vars' bindings =>
    if isBound vars' bindings then withInstance body vars' bindings (relate me ·)
    else if vars = vars' then relate inner inner'
    else pure .unrelated
  | _ => pure .unrelated

/-- What the kind of the first type thinks of the second, if it has an opinion. -/
def opinion (a b : Ty) : Inquiry (Option Inclusion) :=
  match a.kind, b.kind with
  | .bool, .bool | .text, .text => pure (some .equivalent)
  | .int r, .int s => pure (some (r.compare s))
  | .rational r, .rational s => pure (some (r.compare s))
  | .enumeration e, .enumeration f => pure (some (e.compare f))
  | .record fs, .record gs => do
    let down ← recordFits fs gs
    let up ← recordFits gs fs
    pure (some (.ofBoth down up))
  | .variant fs tags _, .variant gs tags' _ =>
    if tags.length = tags'.length ∧ tags.all (fun t => (tag? tags' t.id).isSome) then do
      let (down, up) ← tagsFit fs gs tags' tags
      pure (some (.ofBoth down up))
    else pure (some .unrelated)
  | .array e _, .array f _ => some <$> relate e f
  | .sum xs _, .sum ys _ => do
    let down ← covered xs ys
    let up ← covered ys xs
    pure (some (.ofBoth down up))
  | .tuple xs, .tuple ys =>
    if xs.length = ys.length then some <$> slotsRelate .equivalent xs ys
    else pure (some .unrelated)
  | .map s t, .map s' t' => do
    let sources ← relate s s'
    if sources.isRelated then some <$> relate t t' else pure (some .unrelated)
  | .generic body inner vars bindings, _ =>
    if isBound vars bindings then some <$> withInstance body vars bindings (relate · b)
    else some <$> openGeneric a inner vars b
  | .var v, .var w => pure (some (if v = w then .equivalent else .unrelated))
  | .var _, _ => pure (some .unrelated)
  | _, _ => pure none

/-- How two different types relate. -/
def judge (a b : Ty) : Inquiry Inclusion := do
  match ← opinion a b with
  | some o => pure o
  | none =>
    match ← opinion b a with
    | some o => pure o.reverse
    | none => pure .unrelated

/-- The answer that needs no look at the kinds: a stand-in is disjoint from everything, and a
type is equivalent to itself. -/
def shortcut? (a b : Ty) : Option Inclusion :=
  if a.isFailure || b.isFailure then some .disjoint
  else if a.sameInstance b then some .equivalent
  else none

/-- The size of a pair of types. What a comparison goes on with, a part or an instance on either
side, weighs less. -/
def pairWeight (a b : Ty) : Nat :=
  a.ref.weight + b.ref.weight

end Ty

/-- How two types relate. A pair that weighs no less than the one it is asked about is not
followed. -/
def Registry.compare (r : Registry) (a b : Ty) : Inclusion :=
  match a.shortcut? b with
  | some o => o
  | none =>
    let bound := a.pairWeight b
    (a.judge b).answer ⟨r.resolve, fun x y =>
      if _h : x.pairWeight y < bound then r.compare x y else .unrelated⟩
termination_by a.pairWeight b

/-- The answers of a registry to questions about lighter pairs. -/
def Registry.below (r : Registry) (bound : Nat) : Oracle :=
  ⟨r.resolve, fun a b => if a.pairWeight b < bound then r.compare a b else .unrelated⟩

/-- A comparison is settled at once or by the rules, asked of lighter pairs. -/
theorem Registry.compare_eq (r : Registry) (a b : Ty) :
    r.compare a b =
      (a.shortcut? b).getD ((a.judge b).answer (r.below (a.pairWeight b))) := by
  rw [compare]
  cases a.shortcut? b <;> rfl

end TypedTree
