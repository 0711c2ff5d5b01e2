import TypedTree.Constructor.Template

/-!
# Type constructors

A constructor builds a kind from resolved type arguments and from value arguments. The first are
checked against its arity before it is asked; the second it reads itself, by position, and
refuses with a reason.

## Main definitions

* `Constructor.Args`: what a constructor is given, with readers for value arguments.
* `Constructor`: the constructors.
* `Constructor.construct`: check, build and name a type.
-/

namespace TypedTree

namespace Constructor

/-- What a constructor is given. -/
structure Args where
  constructor : GlobalId
  /-- The type arguments as they were written. -/
  refs : List TypeRef
  /-- The type arguments resolved. -/
  types : List Ty
  values : List Value

namespace Args

/-- Refuse the value arguments. -/
def refuse {α : Type} (args : Args) (reason : String) : Except TypeError α :=
  .error (.valueArgs args.constructor reason)

/-- Demand a number of value arguments. -/
def expectValues (args : Args) (count : Nat) : Except TypeError Unit :=
  if args.values.length = count then .ok ()
  else args.refuse ("expects " ++ toString count ++ " value argument(s), found " ++
    toString args.values.length)

/-- The words for a value argument. -/
def argument (i : Nat) : String :=
  "value argument " ++ toString i

/-- A value argument. -/
def value (args : Args) (i : Nat) : Except TypeError Value :=
  match args.values[i]? with
  | some v => .ok v
  | none => args.refuse ("missing " ++ argument i)

/-- A value argument of a certain form. -/
def form {α : Type} (args : Args) (i : Nat) (what : String) (read? : Value → Option α) :
    Except TypeError α := do
  let v ← args.value i
  match read? v with
  | some a => .ok a
  | none => args.refuse (argument i ++ " must be " ++ what ++ ", found " ++ v.render)

/-- A whole number. -/
def int (args : Args) (i : Nat) : Except TypeError Int64 :=
  args.form i "an int" Value.int?

/-- A whole number of unsigned 32 bits. -/
def count (args : Args) (i : Nat) : Except TypeError UInt32 := do
  let n ← args.int i
  if 0 ≤ n.toInt ∧ n.toInt < 0x100000000 then .ok (.ofNat n.toInt.toNat)
  else args.refuse (argument i ++ " out of range: " ++ toString n.toInt)

/-- A truth value. -/
def boolean (args : Args) (i : Nat) : Except TypeError Bool :=
  args.form i "a bool" Value.bool?

/-- A whole number or a rational, as a rational. -/
def number (args : Args) (i : Nat) : Except TypeError Rational :=
  args.form i "a number" Value.number?

/-- An array. -/
def list (args : Args) (i : Nat) : Except TypeError (List Value) :=
  args.form i "an array" Value.array?

/-- One item of an array argument, of a certain form. -/
def item {α : Type} (args : Args) (i : Nat) (what : String) (read? : Value → Option α)
    (v : Value) : Except TypeError α :=
  match read? v with
  | some a => .ok a
  | none => args.refuse (argument i ++ ": `" ++ v.render ++ "` is not " ++ what)

/-- An array of identifiers. -/
def idents (args : Args) (i : Nat) : Except TypeError (List Ident) := do
  (← args.list i).mapM (args.item i "an identifier" Value.ident?)

/-- An array of truth values. -/
def booleans (args : Args) (i : Nat) : Except TypeError (List Bool) := do
  (← args.list i).mapM (args.item i "a bool" Value.bool?)

/-- A whole number that may serve as a position. -/
def position? (v : Value) : Option Nat := do
  let n ← v.int?
  if 0 ≤ n.toInt then some n.toInt.toNat else none

/-- An array of arrays of positions. -/
def positionLists (args : Args) (i : Nat) : Except TypeError (List (List Nat)) := do
  (← args.list i).mapM fun row => do
    (← args.item i "an array" Value.array? row).mapM (args.item i "an index" position?)

end Args

end Constructor

/-- A type constructor. -/
structure Constructor where
  id : GlobalId
  arity : Arity
  /-- The pattern of the names of its types. -/
  template : Template
  /-- A check of all arguments before anything is built. -/
  check : Constructor.Args → Except TypeError Unit
  build : Constructor.Args → Except TypeError (Kind Ty)
  /-- The name of the type with given arguments. -/
  name : Constructor.Args → String

namespace Constructor

/-- Build the type of a reference for the type system `home`, from its resolved arguments. -/
def construct (c : Constructor) (home : Nat) (refs : List TypeRef) (types : List Ty)
    (values : List Value) : Except TypeError Ty := do
  if c.arity.accepts types.length then
    let args : Args := ⟨c.id, refs, types, values⟩
    c.check args
    let kind ← c.build args
    .ok ⟨home, .constructed c.id refs values, c.name args, kind⟩
  else .error (.arity c.id c.arity types.length)

end Constructor

end TypedTree
