import TypedTree.Config
import TypedTree.Core.Constructors

/-!
# Registries and resolution

A `Registry` holds the primitive types and the type constructors of one type system, each under
a name of its own. It decides what every reference resolves to: a primitive to its type, and a
constructed reference to what its constructor builds once its type arguments resolve, from left
to right.

## Main definitions

* `Registry`: the tables.
* `Registry.addPrimitive`, `Registry.addConstructor`: extension; a name is given once.
* `Registry.resolve`: the type of a reference.
* `Registry.resolveBy`: the same under a failure policy.
-/

namespace TypedTree

/-- The primitive types and type constructors of a type system. -/
structure Registry where
  /-- The type system that this is the registry of. -/
  home : Nat
  primitives : List Primitive
  constructors : List Constructor

namespace Registry

/-- A registry that holds nothing. -/
def empty (home : Nat) : Registry := ⟨home, [], []⟩

/-- A registry that holds the core namespace. -/
def core (home : Nat) : Registry := ⟨home, Core.primitives, Core.constructors⟩

/-- The primitive type under a name. -/
def primitive? (r : Registry) (id : GlobalId) : Option Primitive :=
  r.primitives.find? (·.info.id == id)

/-- The constructor under a name. -/
def constructor? (r : Registry) (id : GlobalId) : Option Constructor :=
  r.constructors.find? (·.id == id)

/-- Whether a name is taken. -/
def isTaken (r : Registry) (id : GlobalId) : Bool :=
  (r.primitive? id).isSome || (r.constructor? id).isSome

/-- Add a primitive type under a new name. -/
def addPrimitive (r : Registry) (p : Primitive) : Except TypeError Registry :=
  if r.isTaken p.info.id then .error (.duplicateRegistration p.info.id)
  else .ok { r with primitives := r.primitives ++ [p] }

/-- Add a constructor under a new name. -/
def addConstructor (r : Registry) (c : Constructor) : Except TypeError Registry :=
  if r.isTaken c.id then .error (.duplicateRegistration c.id)
  else .ok { r with constructors := r.constructors ++ [c] }

/-- The type of a primitive. -/
def primitiveType (r : Registry) (p : Primitive) : Ty :=
  ⟨r.home, .primitive p.info.id, p.info.name, p.kind.mapParts Empty.elim⟩

/-- The error for a primitive that is not registered. -/
def missingPrimitive (id : GlobalId) : TypeError :=
  .unresolvedType (TypeRef.primitive id).render "no such primitive"

/-- The error for a constructed reference whose constructor is not registered. -/
def missingConstructor (ref : TypeRef) (id : GlobalId) : TypeError :=
  .unresolvedType ref.render ("no such type constructor `" ++ id.text ++ "`")

/-- The error for a constructed reference with an argument that does not resolve. -/
def argumentFailed (ref arg : TypeRef) (e : TypeError) : TypeError :=
  .unresolvedType ref.render ("argument `" ++ arg.render ++ "` failed: " ++ e.message)

mutual

/-- The type of a reference. -/
def resolve (r : Registry) : TypeRef → Except TypeError Ty
  | .primitive id =>
    match r.primitive? id with
    | some p => .ok (r.primitiveType p)
    | none => .error (missingPrimitive id)
  | .constructed id types values =>
    match r.constructor? id with
    | none => .error (missingConstructor (.constructed id types values) id)
    | some c =>
      match resolveAll r types with
      | .error (arg, e) => .error (argumentFailed (.constructed id types values) arg e)
      | .ok tys => c.construct r.home types tys values
termination_by structural x => x

/-- The types of several references, or the first that does not resolve and why. -/
def resolveAll (r : Registry) : List TypeRef → Except (TypeRef × TypeError) (List Ty)
  | [] => .ok []
  | ref :: rest =>
    match resolve r ref with
    | .error e => .error (ref, e)
    | .ok t =>
      match resolveAll r rest with
      | .error e => .error e
      | .ok ts => .ok (t :: ts)
termination_by structural x => x

end

/-- The stand-in for a reference that does not resolve. -/
def standIn (r : Registry) (ref : TypeRef) (e : TypeError) : Ty :=
  ⟨r.home, ref, "<unresolved " ++ ref.render ++ ">", .failure e⟩

/-- The error of using a stand-in. -/
def standInError (ref : TypeRef) (e : TypeError) : TypeError :=
  .unresolvedType ref.render e.message

/-- What a failure policy makes of the outcome for a reference. -/
def settle (r : Registry) (policy : FailurePolicy) (ref : TypeRef) :
    Except TypeError Ty → Except TypeError Ty
  | .ok t => .ok t
  | .error e =>
    match policy with
    | .strict => .error e
    | .substitute => .ok (r.standIn ref e)

/-- The type of a reference, or what a failure policy makes of the error. -/
def resolveBy (r : Registry) (policy : FailurePolicy) (ref : TypeRef) : Except TypeError Ty :=
  r.settle policy ref (r.resolve ref)

end Registry

end TypedTree
