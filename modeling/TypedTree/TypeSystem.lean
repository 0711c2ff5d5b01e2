import TypedTree.Config
import TypedTree.Subtyping.Memory
import TypedTree.Ty.Edit

/-!
# Type systems

A `TypeSystem` is a registry with a memory. It resolves each constructed reference once and
keeps the outcome, the type or the error; and, if its settings say so, it keeps how two of its
own types relate. Extending the registry forgets the errors, since a reference that failed may
resolve now, and keeps the types.

The memory only saves work: what a type system answers is what its registry determines.

## Main definitions

* `TypeSystem`: registry, settings and memory.
* `TypeSystem.addPrimitive`, `TypeSystem.addConstructor`: extension.
* `TypeSystem.lookup`: resolve a reference and remember the outcome.
* `TypeSystem.resolve`: resolve a reference as the failure policy says.
* `TypeSystem.memory`, `TypeSystem.compare`: compare two types and remember the answer.
* `TypeSystem.ask`: answer an inquiry.
* `TypeSystem.create`: the default value for a reference.
-/

namespace TypedTree

/-- A registry with a memory. -/
structure TypeSystem where
  config : Config
  registry : Registry
  /-- The outcomes for the constructed references that were looked up. -/
  outcomes : List (TypeRef × Except TypeError Ty)
  /-- How types of this system, known by their references, relate. -/
  judgments : Judgments TypeRef

namespace TypeSystem

/-- A type system that remembers nothing yet. -/
def ofRegistry (config : Config) (registry : Registry) : TypeSystem :=
  ⟨config, registry, [], .empty⟩

/-! ## Extension -/

/-- Forget the references that did not resolve. -/
def forgetErrors (s : TypeSystem) : TypeSystem :=
  { s with outcomes := s.outcomes.filter fun o => o.2.isOk }

/-- Add a primitive type. -/
def addPrimitive (s : TypeSystem) (p : Primitive) : Except TypeError TypeSystem := do
  let registry ← s.registry.addPrimitive p
  .ok { s with registry }.forgetErrors

/-- Add a constructor. -/
def addConstructor (s : TypeSystem) (c : Constructor) : Except TypeError TypeSystem := do
  let registry ← s.registry.addConstructor c
  .ok { s with registry }.forgetErrors

/-! ## Resolution -/

/-- The remembered outcome for a constructed reference. -/
def outcome? (s : TypeSystem) (ref : TypeRef) : Option (Except TypeError Ty) :=
  s.outcomes.lookup ref

/-- Remember the outcome for a reference. -/
def remember (ref : TypeRef) (o : Except TypeError Ty) : StateM TypeSystem (Except TypeError Ty) :=
  fun s => (o, { s with outcomes := (ref, o) :: s.outcomes })

mutual

/-- Resolve a reference. A constructed one is looked up in the memory first; if it is not there,
its constructor is tried, and the outcome is remembered. -/
def lookup : TypeRef → StateM TypeSystem (Except TypeError Ty)
  | .primitive id => fun s => (s.registry.resolve (.primitive id), s)
  | .constructed id types values => do
    let s ← get
    match s.outcome? (.constructed id types values) with
    | some o => pure o
    | none =>
      match s.registry.constructor? id with
      | none =>
        remember (.constructed id types values)
          (.error (Registry.missingConstructor (.constructed id types values) id))
      | some c =>
        match ← lookupAll types with
        | .error (arg, e) =>
          remember (.constructed id types values)
            (.error (Registry.argumentFailed (.constructed id types values) arg e))
        | .ok tys =>
          remember (.constructed id types values) (c.construct s.registry.home types tys values)
termination_by structural x => x

/-- Resolve several references, up to the first that does not resolve. -/
def lookupAll : List TypeRef → StateM TypeSystem (Except (TypeRef × TypeError) (List Ty))
  | [] => pure (.ok [])
  | ref :: rest => do
    match ← lookup ref with
    | .error e => pure (.error (ref, e))
    | .ok t =>
      match ← lookupAll rest with
      | .error e => pure (.error e)
      | .ok ts => pure (.ok (t :: ts))
termination_by structural x => x

end

/-- Resolve a reference. What becomes of an error is for the failure policy to say. -/
def resolve (ref : TypeRef) : StateM TypeSystem (Except TypeError Ty) := do
  let outcome ← lookup ref
  let s ← get
  pure (s.registry.settle s.config.policy ref outcome)

/-- The name of the type of a reference, or the written form of a reference without one. -/
def nameOf (ref : TypeRef) : StateM TypeSystem String := do
  match ← lookup ref with
  | .ok t => pure t.name
  | .error _ => pure ref.render

/-- Whether two resolved types are one instance. The stand-in for a missing primitive is made
anew each time. -/
def isSame (a b : Ty) : Bool :=
  a.sameInstance b && !(a.isFailure && a.ref.isPrimitive)

/-! ## Comparison -/

/-- Whether a type is the one that this system gives for its reference. -/
def owns (s : TypeSystem) (t : Ty) : Bool :=
  match t.ref with
  | .primitive id => (s.registry.primitive? id).any fun p => (s.registry.primitiveType p).sameInstance t
  | ref@(.constructed ..) =>
    match s.outcome? ref with
    | some (.ok own) => own.sameInstance t
    | _ => false

/-- Whether the answer for two types is to be remembered. -/
def memoizes (s : TypeSystem) (a b : Ty) : Bool :=
  s.config.memoize && s.owns a && s.owns b

/-- The memory of a type system. Answers about its own types are kept if its settings say so. -/
def memory : Memory TypeSystem where
  resolve := lookup
  known? a b s := if s.memoizes a b then s.judgments.find? a.ref b.ref else none
  keep a b o s :=
    if s.memoizes a b then { s with judgments := s.judgments.insert a.ref b.ref o } else s

/-- How two types relate. -/
def compare (a b : Ty) : StateM TypeSystem Inclusion :=
  memory.compareOnce a b

/-! ## Inquiries -/

variable {α : Type}

/-- Answer an inquiry. -/
def ask (x : Inquiry α) : StateM TypeSystem α :=
  x.run lookup compare

/-- Answer an inquiry that may fail. -/
def attempt (x : Attempt α) : StateM TypeSystem (Except TypeError α) :=
  ask x.run

/-- The default value of the type of a reference, which has to resolve. -/
def create (ref : TypeRef) : StateM TypeSystem (Except TypeError Value) := do
  match ← lookup ref with
  | .ok t => attempt t.default
  | .error e => pure (.error e)

/-! ## State -/

/-- How many references were looked up and are remembered. -/
def remembered (s : TypeSystem) : Nat :=
  s.outcomes.length

/-- The types that were built from constructed references. -/
def builtTypes (s : TypeSystem) : List Ty :=
  s.outcomes.filterMap fun o => o.2.toOption

/-- How a type system is shown to a programmer. -/
def describe (s : TypeSystem) : String :=
  "TypeSystem \x7b config: " ++ s.config.describe ++ ", primitives: " ++
    toString s.registry.primitives.length ++ ", constructors: " ++
    toString s.registry.constructors.length ++ ", cached: " ++ toString s.remembered ++ " \x7d"

end TypeSystem

end TypedTree
